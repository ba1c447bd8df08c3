import Mathlib.Tactic
import SharedExchange.Proofs.Delivery.System

/-! # What deliveries keep

`Stocked` says of the pool, and `Ring.Parties.Serve` of the ring, what holds whatever happens.
`Delivery.Kept` ties the two to what was sent and taken: the messages on the ring are the pending
ones, the blocks in use are those on their way and those that are held, each pending message stands
for its bytes, and each receipt is what the message yields that was sent in the same place. Every
step keeps this (`Kept.next`). -/

namespace SharedExchange

/-! ## The handles on a pool -/

/-- The handles are on one pool beside a ring, and the references `live` are those in use. -/
structure Stocked (ring : ObjectId) (pools : List Pool) (d : Directory) (live : List BlockRef) :
    Prop where
  shared : ∀ p ∈ pools, ∀ q ∈ pools, q.attachment.object = p.attachment.object ∧
    q = { p with attachment := q.attachment }
  apart : ∀ p ∈ pools, ring ≠ p.attachment.object
  accounted : ∀ p ∈ pools, p.Accounted (d.memory p.attachment.object) live

namespace Stocked

variable {ring : ObjectId} {pools : List Pool} {d d' : Directory} {live live' : List BlockRef}
  {p q : Pool} {b : BlockRef}

/-- What happens elsewhere does not matter to a pool. -/
theorem congr (h : Stocked ring pools d live)
    (hsame : ∀ p ∈ pools, d'.memory p.attachment.object = d.memory p.attachment.object) :
    Stocked ring pools d' live := by
  refine ⟨h.shared, h.apart, fun p hp => ?_⟩
  rw [hsame p hp]
  exact h.accounted p hp

/-- The order in which blocks are listed does not matter. -/
theorem perm (h : Stocked ring pools d live) (hperm : live.Perm live') :
    Stocked ring pools d live' :=
  ⟨h.shared, h.apart, fun p hp => (h.accounted p hp).perm hperm⟩

/-- What one handle does to the pool, it does for all. -/
theorem update (h : Stocked ring pools d live) (hp : p ∈ pools)
    (haccounted : p.Accounted (d'.memory p.attachment.object) live') :
    Stocked ring pools d' live' := by
  refine ⟨h.shared, h.apart, fun q hq => ?_⟩
  obtain ⟨hobject, hq⟩ := h.shared p hp q hq
  rw [hobject, hq]
  exact haccounted.reattach _

/-- All handles see the same bytes. -/
theorem contents_eq (h : Stocked ring pools d live) (hp : p ∈ pools) (hq : q ∈ pools)
    (d' : Directory) (b : BlockRef) : q.contents (d'.memory q.attachment.object) b =
      p.contents (d'.memory p.attachment.object) b := by
  obtain ⟨hobject, hsame⟩ := h.shared p hp q hq
  rw [hobject, hsame]
  rfl

/-- Whoever opens the pool takes its measures from the header. -/
theorem attach (h : Stocked ring pools d live) (hp : p ∈ pools) {name : String}
    (hq : Pool.attach name d = (.ok q, d')) (hobject : q.attachment.object = p.attachment.object) :
    Stocked ring (q :: pools) d' live := by
  obtain ⟨blocks, stack, hdiv, -⟩ := (h.accounted p hp).sound
  obtain ⟨hsize, hstart, rfl⟩ := Pool.eq_of_attach hq
  rw [hobject, hdiv.size_eq] at hsize
  rw [hobject, hdiv.dataStart_eq] at hstart
  have heq : q = { p with attachment := q.attachment } := by rw [← hsize, ← hstart]
  -- the new handle agrees with one of the others, and so with all
  have hsame : ∀ a ∈ q :: pools, a.attachment.object = p.attachment.object ∧
      a = { p with attachment := a.attachment } := by
    intro a ha
    rcases List.mem_cons.1 ha with rfl | ha
    · exact ⟨hobject, heq⟩
    · exact h.shared p hp a ha
  refine ⟨?_, ?_, ?_⟩
  · intro a ha c hc
    obtain ⟨haobject, haeq⟩ := hsame a ha
    obtain ⟨hcobject, hceq⟩ := hsame c hc
    exact ⟨hcobject.trans haobject.symm, by rw [hceq, haeq]⟩
  · intro a ha
    rw [(hsame a ha).1]
    exact h.apart p hp
  · intro a ha
    obtain ⟨haobject, haeq⟩ := hsame a ha
    rw [haobject, haeq]
    exact (h.accounted p hp).reattach _

end Stocked

/-! ## Pending messages -/

namespace Sending.Stands

variable {pools pools' : List Pool} {d d' : Directory} {s : Sending}

/-- A message stands for its bytes as long as its block holds them. -/
theorem congr (h : s.Stands pools d)
    (hsame : ∀ b ∈ s.block, ∀ p ∈ pools', ∃ q ∈ pools,
      p.contents (d'.memory p.attachment.object) b = q.contents (d.memory q.attachment.object) b) :
    s.Stands pools' d' := by
  refine ⟨h.inline_eq, h.body_eq, fun b hb p hp => ?_, h.value_eq⟩
  obtain ⟨q, hq, heq⟩ := hsame b hb p hp
  rw [heq, h.contents_eq b hb q hq]

/-- What happens elsewhere does not matter to a message. -/
theorem of_same (h : s.Stands pools d)
    (hsame : ∀ p ∈ pools, d'.memory p.attachment.object = d.memory p.attachment.object) :
    s.Stands pools d' :=
  h.congr fun b _ p hp => ⟨p, hp, by rw [hsame p hp]⟩

end Sending.Stands

/-- A message by which nothing goes over stands for its own bytes. -/
theorem Sending.stands_plain (msg : Message) (pools : List Pool) (d : Directory) :
    (plain msg).Stands pools d := by
  constructor
  case inline_eq =>
    intro bytes hbody
    have hbody : msg.body = .inline bytes := hbody
    rw [plain, hbody]
  case value_eq =>
    intro v hv
    cases hv
  all_goals
    intro b hb
    cases hb

/-- A block that goes over stands for what it holds. -/
theorem Sending.stands_ofBlock {pools : List Pool} {d : Directory} (label : Label) (b : BlockRef)
    {bytes : List UInt8}
    (hbytes : ∀ p ∈ pools, p.contents (d.memory p.attachment.object) b = bytes) :
    (ofBlock label b bytes).Stands pools d := by
  constructor
  case inline_eq =>
    intro bytes hbody
    cases hbody
  case body_eq =>
    intro a ha
    cases ha
    rfl
  case contents_eq =>
    intro a ha
    cases ha
    exact hbytes
  case value_eq =>
    intro v hv
    cases hv

namespace Delivery

variable {x y : Delivery} {s : Sending} {rest : List Sending}

/-! ## What was sent and what was taken -/

/-- No more is taken than was sent. -/
theorem length_taken_le (h : List.Forall₂ Sending.Yields (x.sent.take x.taken.length) x.taken) :
    x.taken.length ≤ x.sent.length := by
  have hlength := h.length_eq
  rw [List.length_take] at hlength
  omega

/-- A message that is sent is the last of the pending ones. -/
theorem pending_append (h : x.taken.length ≤ x.sent.length) (sendings : List Sending) :
    (x.sent ++ sendings).drop x.taken.length = x.pending ++ sendings := by
  rw [List.drop_append_of_le_length h, pending]

/-- What is taken is the first of the pending messages. -/
theorem pending_tail (h : x.pending = s :: rest) : x.sent.drop (x.taken.length + 1) = rest := by
  rw [← List.drop_drop, ← pending, h, List.drop_succ_cons, List.drop_zero]

/-- The next message that is taken is the next that was sent. -/
theorem take_append (h : x.pending = s :: rest) :
    x.sent.take (x.taken.length + 1) = x.sent.take x.taken.length ++ [s] := by
  have hnext : x.sent[x.taken.length]? = some s := by
    rw [← List.head?_drop, ← pending, h, List.head?_cons]
  rw [List.take_add_one, hnext, Option.toList_some]

/-- All that holds of a delivery at any time. -/
structure Kept (capacity : UInt64) (x : Delivery) : Prop where
  serve : x.parties.Serve x.ring capacity (x.directory.memory x.ring)
    (x.pending.map Sending.message)
  stocked : Stocked x.ring x.pools x.directory (x.onWay ++ x.held)
  stands : ∀ s ∈ x.pending, s.Stands x.pools x.directory
  yields : List.Forall₂ Sending.Yields (x.sent.take x.taken.length) x.taken

variable {capacity : UInt64} {d : Directory} {parties : Ring.Parties} {held : List BlockRef}

/-! ## Sending -/

/-- Messages are sent, if any, and the blocks that go over with them are no longer held. -/
theorem Kept.extend (h : x.Kept capacity) (sendings : List Sending)
    (hserve : parties.Serve x.ring capacity (d.memory x.ring)
      (x.pending.map Sending.message ++ sendings.map Sending.message))
    (hstocked : Stocked x.ring x.pools d (x.onWay ++ sendings.filterMap Sending.block ++ held))
    (hold : ∀ s ∈ x.pending, s.Stands x.pools d) (hnew : ∀ s ∈ sendings, s.Stands x.pools d) :
    Kept capacity { x with
      directory := d, parties := parties, held := held, sent := x.sent ++ sendings } := by
  have hle := length_taken_le h.yields
  have hpending := pending_append hle sendings
  constructor
  case serve =>
    rw [pending, hpending, List.map_append]
    exact hserve
  case stocked =>
    rw [onWay, pending, hpending, List.filterMap_append]
    exact hstocked
  case stands =>
    intro s hs
    rw [pending, hpending] at hs
    exact (List.mem_append.1 hs).elim (hold s) (hnew s)
  case yields =>
    rw [List.take_append_of_le_length hle]
    exact h.yields

/-- A party has looked at the ring, and nothing came of it. -/
theorem Kept.looked (h : x.Kept capacity)
    (hserve : parties.Serve x.ring capacity (x.directory.memory x.ring)
      (x.pending.map Sending.message))
    (hsame : ∀ id, d.memory id = x.directory.memory id) :
    Kept capacity { x with directory := d, parties := parties } := by
  have hkept : Kept capacity { x with
      directory := d, parties := parties, held := x.held, sent := x.sent ++ [] } := by
    refine h.extend [] ?_ ?_ (fun s hs => ?_) (fun s hs => ?_)
    · rwa [hsame, List.map_nil, List.append_nil]
    · rw [List.filterMap_nil, List.append_nil]
      exact h.stocked.congr fun p _ => hsame _
    · exact (h.stands s hs).of_same fun p _ => hsame _
    · cases hs
  rwa [List.append_nil] at hkept

/-- What happens to the object of the ring does not matter to the pool. -/
theorem Kept.memory_update_ring (h : x.Kept capacity) {p : Pool} (hp : p ∈ x.pools) (d : Directory)
    (m : Memory) :
    (d.update x.ring m).memory p.attachment.object = d.memory p.attachment.object :=
  d.memory_update_of_ne _ (h.stocked.apart p hp).symm

/-- A message is sent with the block that goes over with it, or both stay. -/
theorem Kept.sendMessage (h : x.Kept capacity) (hstands : s.Stands x.pools x.directory)
    (hperm : (x.onWay ++ x.held).Perm (x.onWay ++ [s].filterMap Sending.block ++ held))
    {answer : Except Fault Unit} {r : Ring}
    (hrun : x.directory.runWith x.ring (x.parties.sender.send s.message) = (answer, r, d)) :
    Kept capacity { x with
      directory := d
      parties := x.parties.setSender r
      held := if answer.isOk then held else x.held
      sent := if answer.isOk then x.sent ++ [s] else x.sent } := by
  obtain ⟨fault, r', heq, hserve⟩ | ⟨r', m', heq, hserve⟩ := h.serve.send s.message
  · rw [Directory.runWith, heq] at hrun
    cases hrun
    exact h.looked hserve (x.directory.memory_update_self x.ring)
  · rw [Directory.runWith, heq] at hrun
    cases hrun
    have hpool : ∀ p ∈ x.pools, (x.directory.update x.ring m').memory p.attachment.object =
        x.directory.memory p.attachment.object := fun p hp => h.memory_update_ring hp _ _
    refine h.extend [s] ?_ ((h.stocked.perm hperm).congr hpool)
      (fun t ht => (h.stands t ht).of_same hpool) ?_
    · rw [Directory.memory_update_same]
      exact hserve
    · intro t ht
      rw [List.mem_singleton.1 ht]
      exact hstands.of_same hpool

/-- A value that was refused is no message. -/
theorem posted_error (label : Label) (v : Value) (body : Except Fault Body) (fault : Fault) :
    posted label v body (.error fault) = [] := by
  cases body <;> rfl

/-- A value stands for its wire form in a body that carries it. -/
theorem stands_ofValue {v : Value} {body : Body} {pools : List Pool}
    (hmeasure : v.measure 0 = .ok v.wireLength)
    (hinline : ∀ bytes, body = .inline bytes → v.wire = bytes)
    (hblock : ∀ b ∈ body.block?, ∀ p ∈ pools,
      p.contents (d.memory p.attachment.object) b = v.wire) (label : Label) :
    (Sending.ofValue label v body).Stands pools d := by
  refine ⟨hinline, ?_, hblock, ?_⟩
  · intro b hb
    cases body with
    | inline bytes => cases hb
    | pooled a =>
      cases hb
      rfl
  · intro w hw
    cases hw
    exact ⟨hmeasure, rfl, rfl⟩

/-- A value is sent in a body that was made for it, or nothing changes. -/
theorem Kept.sendValue (h : x.Kept capacity) {pool : Option Pool} (hpool : ∀ p ∈ pool, p ∈ x.pools)
    (label : Label) (v : Value) (hcount : v.wireLength < UInt64.size)
    {answer : Except Fault Unit} {r : Ring}
    (hrun : x.parties.sender.sendValue label v pool x.directory = (answer, r, d)) :
    Kept capacity { x with
      directory := d
      parties := x.parties.setSender r
      sent := x.sent ++ posted label v (Body.ofValue v pool x.directory).1 answer } := by
  obtain ⟨fault, r', d', heq, hsame, hserve⟩ |
      ⟨body, d₁, r', m', heq, hbody, hmeasure, hcarried, hserve⟩ :=
    h.serve.sendValue_cases (fun p hp => h.stocked.apart p (hpool p hp))
      (fun p hp => h.stocked.accounted p (hpool p hp)) label v hcount
  · rw [heq] at hrun
    cases hrun
    -- a refusal leaves no message and no block behind
    rw [posted_error, List.append_nil]
    exact h.looked hserve hsame
  · rw [heq] at hrun
    cases hrun
    rw [hbody, posted]
    have hserved : (x.parties.setSender r).Serve x.ring capacity
        ((d₁.update x.ring m').memory x.ring)
        (x.pending.map Sending.message ++ [Sending.ofValue label v body].map Sending.message) := by
      rw [Directory.memory_update_same]
      exact hserve
    have hring : ∀ p ∈ x.pools, (d₁.update x.ring m').memory p.attachment.object =
        d₁.memory p.attachment.object := fun p hp => h.memory_update_ring hp _ _
    -- the message is on its way; what is left is where its body is
    cases hcarried with
    | inline hfits hsame =>
      have hpools : ∀ p ∈ x.pools, (d₁.update x.ring m').memory p.attachment.object =
          x.directory.memory p.attachment.object := fun p hp => (hring p hp).trans (hsame _)
      refine h.extend _ hserved ?_ ?_ ?_
      · exact (h.stocked.perm (by simp [Sending.ofValue, Body.block?])).congr hpools
      · exact fun s hs => (h.stands s hs).of_same hpools
      · intro s hs
        rw [List.mem_singleton.1 hs]
        exact stands_ofValue hmeasure (fun _ => Body.inline.inj) (fun b hb => by cases hb) label
    | @pooled p b hp hlong hother hgiven hcontents hkept hledger =>
      have hmem := hpool p hp
      have hall : ∀ q ∈ x.pools, ∀ a, q.contents
          ((d₁.update x.ring m').memory q.attachment.object) a =
          p.contents (d₁.memory p.attachment.object) a := by
        intro q hq a
        rw [h.stocked.contents_eq hmem hq, hring p hmem]
      refine h.extend _ hserved ?_ ?_ ?_
      · refine h.stocked.update hmem ?_
        rw [hring p hmem]
        refine hgiven.perm ?_
        simp [Sending.ofValue, Body.block?, List.perm_middle.symm]
      · intro s hs
        refine (h.stands s hs).congr fun a ha q hq => ⟨p, hmem, ?_⟩
        rw [hall q hq]
        exact hkept a (List.mem_append_left _ (List.mem_filterMap.2 ⟨s, hs, ha⟩))
      · intro s hs
        rw [List.mem_singleton.1 hs]
        refine stands_ofValue hmeasure (fun bytes hbody => by cases hbody) ?_ label
        intro a ha q hq
        cases ha
        rw [hall q hq, hcontents]

/-! ## Receiving -/

/-- The oldest pending message is taken. -/
theorem Kept.take (h : x.Kept capacity) (hpending : x.pending = s :: rest) {receipt : Receipt}
    (hyields : s.Yields receipt)
    (hserve : parties.Serve x.ring capacity (d.memory x.ring) (rest.map Sending.message))
    (hstocked : Stocked x.ring x.pools d (rest.filterMap Sending.block ++ held))
    (hstands : ∀ s ∈ rest, s.Stands x.pools d) :
    Kept capacity { x with
      directory := d, parties := parties, held := held, taken := x.taken ++ [receipt] } := by
  have hrest := pending_tail hpending
  constructor
  case serve =>
    rw [pending, List.length_append, List.length_singleton, hrest]
    exact hserve
  case stocked =>
    rw [onWay, pending, List.length_append, List.length_singleton, hrest]
    exact hstocked
  case stands =>
    rw [pending, List.length_append, List.length_singleton, hrest]
    exact hstands
  case yields =>
    rw [List.length_append, List.length_singleton, take_append hpending]
    exact List.rel_append h.yields (.cons hyields .nil)

/-- The blocks on their way when a message is the oldest one. -/
theorem onWay_cons (hpending : x.pending = s :: rest) :
    x.onWay = s.block.toList ++ rest.filterMap Sending.block := by
  rw [onWay, hpending, List.filterMap_cons]
  cases s.block <;> rfl

/-- A message is taken as it is, and its block with it. -/
theorem Kept.receive (h : x.Kept capacity) {answer : Option Message} {r : Ring}
    (hrun : x.directory.runWith x.ring x.parties.receiver.receive? = (answer, r, d)) :
    Kept capacity { x with
      directory := d
      parties := x.parties.setReceiver r
      held := (x.pending.head?.bind Sending.block).toList ++ x.held
      taken := x.taken ++ (answer.map Receipt.message).toList } := by
  have hserve := h.serve
  cases hpending : x.pending with
  | nil =>
    rw [hpending] at hserve
    -- nothing is pending, and only what the receiver knows may change
    obtain ⟨r', heq, hserved⟩ := hserve.receive_nil
    rw [Directory.runWith, heq] at hrun
    cases hrun
    have hserved : (x.parties.setReceiver r).Serve x.ring capacity (x.directory.memory x.ring)
        (x.pending.map Sending.message) := by rwa [hpending]
    have hkept := h.looked hserved (x.directory.memory_update_self x.ring)
    simpa using hkept
  | cons s rest =>
    rw [hpending] at hserve
    obtain ⟨r', m', heq, hserved⟩ := hserve.receive_cons
    rw [Directory.runWith, heq] at hrun
    cases hrun
    have hpools : ∀ p ∈ x.pools, (x.directory.update x.ring m').memory p.attachment.object =
        x.directory.memory p.attachment.object := fun p hp => h.memory_update_ring hp _ _
    have hyields : s.Yields (.message s.message) := rfl
    -- the block of the message moves from those on their way to those that are held
    refine h.take hpending hyields ?_ ?_ ?_
    · rw [Directory.memory_update_same]
      exact hserved
    · refine (h.stocked.perm ?_).congr hpools
      rw [onWay_cons hpending, List.append_assoc]
      exact List.perm_append_comm_assoc ..
    · intro t ht
      refine (h.stands t ?_).of_same hpools
      rw [hpending]
      exact List.mem_cons_of_mem _ ht

/-- What is read of a message is what it stands for. -/
theorem yields_value (h : s.Stands x.pools d) (node : NodeId) :
    s.Yields (.value node (s.reading node)) := by
  refine ⟨rfl, fun v hv hordered hfits => ?_⟩
  obtain ⟨hmeasure, hbytes, -⟩ := h.value_eq v hv
  obtain ⟨w, hdecode, hcontent⟩ := Value.decode_wire hmeasure hordered hfits node
  rw [Sending.reading, hbytes, hdecode]
  exact ⟨w, rfl, hcontent⟩

/-- What becomes of the oldest message when it is read as a value: its bytes are read, and the block
that it brought, if it brought one, is given back. -/
theorem Kept.toValue (h : x.Kept capacity) {p : Pool} (hp : p ∈ x.pools)
    (hpending : x.pending = s :: rest) (hreadable : s.Readable) (node : NodeId) (m' : Memory) :
    ∃ d', s.message.body.toValue (some p) node (x.directory.update x.ring m') =
        ((Value.decode node s.bytes).mapError .refused, d') ∧
      d'.memory x.ring = m' ∧
      Stocked x.ring x.pools d' (rest.filterMap Sending.block ++ x.held) ∧
      (∀ t ∈ rest, t.Stands x.pools d') ∧
      (s.block = none → d'.memory p.attachment.object = x.directory.memory p.attachment.object) ∧
      ∀ b ∈ s.block, ∃ size, Pool.ledger (d'.memory p.attachment.object) =
        (Pool.ledger (x.directory.memory p.attachment.object)).takeBack size := by
  have hstands := h.stands s (by rw [hpending]; exact List.mem_cons_self)
  have hothers : ∀ t ∈ rest, t.Stands x.pools x.directory := fun t ht =>
    h.stands t (by rw [hpending]; exact List.mem_cons_of_mem _ ht)
  have hpools : ∀ q ∈ x.pools, (x.directory.update x.ring m').memory q.attachment.object =
      x.directory.memory q.attachment.object := fun q hq => h.memory_update_ring hq _ _
  have hstocked := h.stocked
  rw [onWay_cons hpending, ← hreadable] at hstocked
  rw [← hreadable]
  cases hbody : s.message.body with
  | inline bytes =>
    -- nothing came with the message, so the pool is not touched
    rw [hbody] at hstocked
    rw [hstands.inline_eq bytes hbody]
    exact ⟨_, rfl, Directory.memory_update_same .., hstocked.congr hpools,
      fun t ht => (hothers t ht).of_same hpools, fun _ => hpools p hp, fun b hb => (by cases hb)⟩
  | pooled b =>
    have hblock : b ∈ s.block := by
      rw [← hreadable, hbody]
      rfl
    rw [hbody] at hstocked
    have haccounted := hstocked.accounted p hp
    rw [← hpools p hp] at haccounted
    obtain ⟨m'', heq, hleft, hkept, hledger⟩ :=
      Body.toValue_pooled haccounted (List.mem_cons_self) node
    rw [hpools p hp] at heq hkept hledger
    rw [hstands.contents_eq b hblock p hp] at heq
    have hring : ((x.directory.update x.ring m').update p.attachment.object m'').memory x.ring =
        m' := by
      rw [Directory.memory_update_of_ne _ _ (h.stocked.apart p hp), Directory.memory_update_same]
    refine ⟨_, heq, hring, ?_, fun t ht => ?_, fun hnone => (by cases hnone),
      fun a _ => ?_⟩
    · refine hstocked.update hp ?_
      rw [Directory.memory_update_same]
      rwa [Body.block?, Option.toList_some, List.singleton_append, List.cons_append,
        List.erase_cons_head] at hleft
    · refine (hothers t ht).congr fun a ha q hq => ⟨p, hp, ?_⟩
      rw [hstocked.contents_eq hp hq, Directory.memory_update_same]
      have hmem : a ∈ rest.filterMap Sending.block := List.mem_filterMap.2 ⟨t, ht, ha⟩
      exact hkept a (List.mem_cons_of_mem _ (List.mem_append_left _ hmem))
    · rw [Directory.memory_update_same]
      exact hledger

/-- A message is taken for the value that it carries. -/
theorem Kept.receiveValue (h : x.Kept capacity) {p : Pool} (hp : p ∈ x.pools)
    (hfront : ∀ s ∈ x.pending.head?, s.Readable) (node : NodeId)
    {answer : Option (Except Failure (Message × Value))} {r : Ring}
    (hrun : x.parties.receiver.receiveValue? (some p) node x.directory = (answer, r, d)) :
    Kept capacity { x with
      directory := d
      parties := x.parties.setReceiver r
      taken := x.taken ++ (answer.map (Receipt.value node)).toList } := by
  have hserve := h.serve
  cases hpending : x.pending with
  | nil =>
    rw [hpending] at hserve
    obtain ⟨r', heq, hserved⟩ := hserve.receiveValue_nil (some p) node
    rw [heq] at hrun
    cases hrun
    have hserved : (x.parties.setReceiver r).Serve x.ring capacity (x.directory.memory x.ring)
        (x.pending.map Sending.message) := by rwa [hpending]
    have hkept := h.looked hserved (x.directory.memory_update_self x.ring)
    simpa using hkept
  | cons s rest =>
    rw [hpending] at hserve hfront
    obtain ⟨r', m', heq, hserved⟩ := hserve.receiveValue_cons (some p) node
    obtain ⟨d', hvalue, hring, hstocked, hstands, -⟩ :=
      h.toValue hp hpending (hfront s rfl) node m'
    rw [heq, hvalue] at hrun
    cases hrun
    have hyields := yields_value (h.stands s (by rw [hpending]; exact List.mem_cons_self)) node
    exact h.take hpending hyields (by rwa [hring]) hstocked hstands

/-! ## Every step -/

/-- Whatever happens, everything is kept. -/
theorem Kept.next (h : x.Kept capacity) (hnext : Next x y) : y.Kept capacity := by
  cases hnext with
  | elsewhere d hring hpool =>
    refine ⟨?_, h.stocked.congr hpool, fun s hs => (h.stands s hs).of_same hpool, h.yields⟩
    show x.parties.Serve x.ring capacity (d.memory x.ring) (x.pending.map Sending.message)
    rw [hring]
    exact h.serve
  | openRing hattach hobject role =>
    obtain rfl := (Ring.attach_eq_ok_iff.1 hattach).2
    obtain ⟨hsends, hreceives⟩ := h.serve.turns.attach hattach (by rw [hobject])
    exact ⟨h.serve.replace hobject hsends hreceives role, h.stocked, h.stands, h.yields⟩
  | @openPool name p q d hp hattach hobject =>
    have hstocked := h.stocked.attach hp hattach hobject
    obtain rfl := (Pool.attach_eq_ok_iff.1 hattach).2
    refine ⟨h.serve, hstocked, fun s hs => ?_, h.yields⟩
    refine (h.stands s hs).congr fun b _ a ha => ⟨p, hp, ?_⟩
    exact hstocked.contents_eq (List.mem_cons_of_mem _ hp) ha _ b
  | @usePool p hp action m held hperform =>
    obtain ⟨haccounted, hcontents⟩ := (h.stocked.accounted p hp).perform action
    rw [hperform] at haccounted hcontents
    have hring : (x.directory.update p.attachment.object m).memory x.ring =
        x.directory.memory x.ring := Directory.memory_update_of_ne _ _ (h.stocked.apart p hp)
    have hpool := x.directory.memory_update_same p.attachment.object m
    refine ⟨?_, h.stocked.update hp (by rwa [hpool]), fun s hs => ?_, h.yields⟩
    · show x.parties.Serve x.ring capacity
        ((x.directory.update p.attachment.object m).memory x.ring) (x.pending.map Sending.message)
      rw [hring]
      exact h.serve
    · refine (h.stands s hs).congr fun b hb q hq => ⟨p, hp, ?_⟩
      rw [h.stocked.contents_eq hp hq, hpool]
      exact hcontents b (List.mem_filterMap.2 ⟨s, hs, hb⟩)
  | @refer p a b hp hb hlocate =>
    have hperm : (x.onWay ++ x.held).Perm (b :: (x.onWay ++ x.held.erase b)) :=
      ((List.perm_cons_erase hb).append_left _).trans List.perm_middle
    have haccounted := ((h.stocked.perm hperm).accounted p hp).refer hlocate
    exact ⟨h.serve, h.stocked.update hp (haccounted.perm List.perm_middle.symm), h.stands, h.yields⟩
  | send msg hrun =>
    have hperm : (x.onWay ++ x.held).Perm
        (x.onWay ++ [Sending.plain msg].filterMap Sending.block ++ x.held) := by
      simp [Sending.plain]
    have hkept := h.sendMessage (Sending.stands_plain msg x.pools x.directory) hperm hrun
    rwa [ite_self] at hkept
  | @sendBlock p b hp hb label answer s d hrun =>
    have hbytes : ∀ q ∈ x.pools, q.contents (x.directory.memory q.attachment.object) b =
        p.contents (x.directory.memory p.attachment.object) b := fun q hq =>
      h.stocked.contents_eq hp hq x.directory b
    have hstands := Sending.stands_ofBlock label b hbytes
    refine h.sendMessage hstands ?_ hrun
    -- the block goes over from those that are held to those on their way
    rw [List.append_assoc]
    exact (List.perm_cons_erase hb).append_left x.onWay
  | sendValue hpool label v hcount hrun => exact h.sendValue hpool label v hcount hrun
  | receive hrun => exact h.receive hrun
  | receiveValue hp hfront node hrun => exact h.receiveValue hp hfront node hrun

/-- Whatever has happened, everything is kept. -/
theorem Kept.run (h : x.Kept capacity) (hrun : Relation.ReflTransGen Next x y) :
    y.Kept capacity := by
  induction hrun with
  | refl => exact h
  | tail _ hnext ih => exact ih.next hnext

/-- It is so at the start. -/
theorem Fresh.kept {r : Ring} {pool : Option Pool} (h : Fresh r pool d) :
    (start r pool d).Kept r.capacity := by
  obtain ⟨⟨name, capacity, patience, made, made', hmade, hmemory⟩, hpools, hapart⟩ := h
  constructor
  case serve =>
    show (Ring.Parties.alone r).Serve r.attachment.object r.capacity
      (d.memory r.attachment.object) []
    rw [hmemory]
    exact Ring.serve_of_create hmade
  case stocked =>
    refine ⟨?_, fun p hp => hapart p (Option.mem_toList.1 hp), ?_⟩
    · intro p hp q hq
      obtain rfl : p = q :=
        Option.some.inj ((Option.mem_toList.1 hp).symm.trans (Option.mem_toList.1 hq))
      exact ⟨rfl, rfl⟩
    · intro p hp
      obtain ⟨name, size, made, made', hmade, hmemory⟩ := hpools p (Option.mem_toList.1 hp)
      show p.Accounted (d.memory p.attachment.object) []
      rw [hmemory]
      exact Pool.accounted_of_create hmade
  case stands =>
    intro s hs
    cases hs
  case yields => exact .nil

end Delivery
end SharedExchange
