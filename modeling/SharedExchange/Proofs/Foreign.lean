import Mathlib.Data.List.TakeWhile
import Mathlib.Tactic
import SharedExchange.Foreign

/-! # The foreign interface is the native one

Callers of the foreign interface and of the native one may use the same rings and pools, and even
the same handles. Every call through a handle that is not null has a counterpart, the native call
with the same arguments (`Call.counterpart`), and `Call.reply` says what the foreign caller is told
when the native one is answered so or so. A call does to the directory and to its handle what its
counterpart does, and is replied to in this way (`perform_eq`); one that has no counterpart does
nothing. So in any run the foreign calls can be replaced by their counterparts, whatever else
happens in between (`run_counterparts`). -/

namespace SharedExchange

/-! ## What a message carries -/

/-- The bytes of a message in its slot; a reference to a block is not among them. -/
def Message.payload (msg : Message) : List UInt8 :=
  match msg.body with
  | .inline bytes => bytes
  | .pooled _ => []

/-- The block that a message refers to. -/
def Message.block? (msg : Message) : Option BlockRef :=
  match msg.body with
  | .inline _ => none
  | .pooled b => some b

namespace Foreign

/-! ## Calls -/

/-- The directory and everybody's handles, by number. A handle that is null leads nowhere. -/
structure World where
  directory : Directory
  rings : Nat → Option Ring
  pools : Nat → Option Pool

/-- A call of the foreign interface. Its handle is given by number. -/
inductive Call
  | createRing (h : Nat) (name : Option (List UInt8)) (capacity : UInt64)
  | attachRing (h : Nat) (name : Option (List UInt8))
  | releaseRing (h : Nat)
  | send (h : Nat) (label : Label) (data : Option (List UInt8)) (length : Nat)
  | sendBlock (h : Nat) (label : Label) (b : BlockRef)
  | receive (h : Nat) (info : Option MessageInfo) (buffer : Option Span)
  | pending (h : Nat)
  | createPool (h : Nat) (name : Option (List UInt8)) (size : UInt64)
  | attachPool (h : Nat) (name : Option (List UInt8))
  | releasePool (h : Nat)
  | allocate (h : Nat) (size : UInt64) (out : Option UInt64)
  | deallocate (h : Nat) (b : BlockRef)
  /-- Ask for the bytes of a block and change them in place. -/
  | access (h : Nat) (b : BlockRef) (f : List UInt8 → List UInt8)

/-- What a foreign caller is told: whether he has a handle now, a status number, whether a message
was taken with what is then in the places for it, a count, whether a block was handed out with what
is then in the place for its offset, whether it was given back, and the bytes of a block, if it has
any. Of what breaks off there is nothing to tell but that. -/
abbrev Call.Reply : Call → Type
  | createRing _ _ _ | attachRing _ _ | createPool _ _ _ | attachPool _ _ => Except Crash Bool
  | releaseRing _ | releasePool _ => Unit
  | send _ _ _ _ | sendBlock _ _ _ => Int
  | receive _ _ _ => Bool × Option MessageInfo × Option (List UInt8)
  | pending _ => Nat
  | allocate _ _ _ => Bool × Option UInt64
  | deallocate _ _ => Except Crash Bool
  | access _ _ _ => Option (List UInt8)

/-- What a native caller is told. -/
abbrev Call.Answer : Call → Type
  | createRing _ _ _ | attachRing _ _ => Except Failure Ring
  | createPool _ _ _ | attachPool _ _ => Except Failure Pool
  | releaseRing _ | releasePool _ => Unit
  | send _ _ _ _ | sendBlock _ _ _ => Except Fault Unit
  | receive _ _ _ => Option Message
  | pending _ => Nat
  | allocate _ _ _ => Except Fault BlockRef
  | deallocate _ _ => Except Failure Unit
  | access _ _ _ => Except Fault (List UInt8)

namespace World

variable {α : Type} (w : World) (h : Nat)

/-- Give a ring to a handle, or null. -/
def holdRing (ring : Option Ring) (d : Directory) : World :=
  { w with directory := d, rings := Function.update w.rings h ring }

/-- Give a pool to a handle, or null. -/
def holdPool (pool : Option Pool) (d : Directory) : World :=
  { w with directory := d, pools := Function.update w.pools h pool }

/-- To give a handle its own ring changes nothing. -/
@[simp] theorem holdRing_self : w.holdRing h (w.rings h) w.directory = w := by
  rw [holdRing, Function.update_eq_self]

/-- To give a handle its own pool changes nothing. -/
@[simp] theorem holdPool_self : w.holdPool h (w.pools h) w.directory = w := by
  rw [holdPool, Function.update_eq_self]

/-- Let a handle have what was made or found for it, or null. One that breaks off leaves it as it
was. -/
def given (hold : Option α → Directory → World) :
    Except Crash (Option α) × Directory → Except Crash Bool × World
  | (.ok found, d) => (.ok found.isSome, hold found d)
  | (.error crash, d) => (.error crash, { w with directory := d })

/-- What happens when a foreign call is made. -/
def perform : (c : Call) → c.Reply × World
  | .createRing h name capacity =>
    w.given (w.holdRing h) (Foreign.createRing name capacity w.directory)
  | .attachRing h name => w.given (w.holdRing h) (Foreign.attachRing name w.directory)
  | .releaseRing h => ((), w.holdRing h none (Foreign.releaseRing (w.rings h) w.directory))
  | .send h label data length =>
    let (status, ring, d) := Foreign.send (w.rings h) label data length w.directory
    (status.code, w.holdRing h ring d)
  | .sendBlock h label b =>
    let (status, ring, d) := Foreign.sendBlock (w.rings h) label b w.directory
    (status.code, w.holdRing h ring d)
  | .receive h info buffer =>
    let (taken, ring, d) := Foreign.receiveInto (w.rings h) info buffer w.directory
    (taken, w.holdRing h ring d)
  | .pending h => (Foreign.pending (w.rings h) w.directory, w)
  | .createPool h name size => w.given (w.holdPool h) (Foreign.createPool name size w.directory)
  | .attachPool h name => w.given (w.holdPool h) (Foreign.attachPool name w.directory)
  | .releasePool h => ((), w.holdPool h none (Foreign.releasePool (w.pools h) w.directory))
  | .allocate h size out =>
    let (served, d) := Foreign.allocateInto (w.pools h) size out w.directory
    (served, { w with directory := d })
  | .deallocate h b =>
    let (done, d) := Foreign.deallocate (w.pools h) b w.directory
    (done, { w with directory := d })
  | .access h b f =>
    let (bytes, d) := Foreign.access (w.pools h) b (fun old => (old, f old)) w.directory
    (bytes, { w with directory := d })

/-! ## Native calls -/

/-- Use the ring of a handle, if it has one. -/
def onRing (operation : Ring → Memory → α × Ring × Memory) : Option α × World :=
  match w.rings h with
  | none => (none, w)
  | some r =>
    let (answer, r, d) := w.directory.runWith r.attachment.object (operation r)
    (some answer, w.holdRing h r d)

/-- Use the pool of a handle, if it has one. -/
def onPool (operation : Pool → Memory → α × Memory) : Option α × World :=
  match w.pools h with
  | none => (none, w)
  | some p =>
    let (answer, d) := w.directory.run p.attachment.object (operation p)
    (some answer, { w with directory := d })

/-- Make or find something under a name, if it is one, and let a handle have it, if that does not
break off. -/
def made (hold : Option α → Directory → World) (name : Option (List UInt8))
    (make : String → Directory → Except Failure α × Directory) :
    Option (Except Failure α) × World :=
  match nameOf? name with
  | none => (none, hold none w.directory)
  | some name =>
    match make name w.directory with
    | (.ok a, d) => (some (.ok a), hold (some a) d)
    | (.error (.refused fault), d) => (some (.error (.refused fault)), hold none d)
    | (.error (.crashed crash), d) => (some (.error (.crashed crash)), { w with directory := d })

end World

/-- The bytes that a caller means by a pointer and a length: none at all, wherever he points, when
the length is zero, and otherwise those he points at, if he does. -/
def bytesOf? (data : Option (List UInt8)) (length : Nat) : Option (List UInt8) :=
  if length = 0 then some [] else data.map (List.take length)

/-- What happens when the native call with the same arguments is made instead. There is none when
the handle is null, when the bytes to send are missing, or when the name is none. -/
def Call.counterpart (w : World) : (c : Call) → Option c.Answer × World
  | .createRing h name capacity =>
    let capacity := if capacity = 0 then Ring.standardCapacity else capacity
    w.made (w.holdRing h) name fun name => Ring.create name capacity .standard
  | .attachRing h name => w.made (w.holdRing h) name fun name => Ring.attach name .standard
  | .releaseRing h =>
    match w.rings h with
    | none => (none, w)
    | some r => (some (), w.holdRing h none (w.directory.release r.attachment))
  | .send h label data length =>
    match bytesOf? data length with
    | none => (none, w)
    | some bytes => w.onRing h fun r => r.send ⟨label, .inline bytes⟩
  | .sendBlock h label b => w.onRing h fun r => r.send ⟨label, .pooled b⟩
  | .receive h _ _ => w.onRing h Ring.receive?
  | .pending h =>
    ((w.rings h).map fun r => Ring.pending (w.directory.memory r.attachment.object), w)
  | .createPool h name size =>
    w.made (w.holdPool h) name fun name => Pool.create name size
  | .attachPool h name => w.made (w.holdPool h) name fun name => Pool.attach name
  | .releasePool h =>
    match w.pools h with
    | none => (none, w)
    | some p => (some (), w.holdPool h none (w.directory.release p.attachment))
  | .allocate h size _ => w.onPool h fun p => p.allocate size
  | .deallocate h b => w.onPool h fun p => p.deallocate b
  | .access h b f => w.onPool h fun p => p.edit b fun old => (.ok old, f old)

/-! ## Replies -/

/-- Whether there is an answer, and no fault. -/
def succeeded {α : Type} : Option (Except Failure α) → Except Crash Bool
  | some (.ok _) => .ok true
  | some (.error (.crashed crash)) => .error crash
  | _ => .ok false

/-- Zero when a message was sent, one when the ring is full, and minus one for any other fault or
when nothing was tried. -/
def statusOf : Option (Except Fault Unit) → Int
  | some (.ok ()) => 0
  | some (.error .ringFull) => 1
  | _ => -1

/-- What a caller should be told about a message. -/
def infoOf (msg : Message) : MessageInfo where
  label := msg.label
  length := msg.payload.length
  pooled := msg.block?.isSome
  block := msg.block?.getD ⟨0, 0⟩

/-- The bytes that a caller points at after as much of the payload as there is room for has been
copied over their front. -/
def Span.copied (s : Span) (payload : List UInt8) : List UInt8 :=
  payload.take (min payload.length s.length) ++ s.bytes.drop (min payload.length s.length)

/-- How a foreign call is replied to when its counterpart is answered so, or has not been made. -/
def Call.reply : (c : Call) → Option c.Answer → c.Reply
  | .createRing _ _ _ | .attachRing _ _ | .createPool _ _ _ | .attachPool _ _
  | .deallocate _ _ => fun answer => succeeded answer
  | .releaseRing _ | .releasePool _ => fun _ => ()
  | .send _ _ _ _ | .sendBlock _ _ _ => fun answer => statusOf answer
  | .receive _ info buffer => fun answer =>
    match answer with
    | some (some msg) =>
      (true, info.map fun _ => infoOf msg, buffer.map fun span => span.copied msg.payload)
    | _ => (false, info, buffer.map Span.bytes)
  | .pending _ => fun answer => answer.getD 0
  | .allocate _ _ out => fun answer =>
    match answer with
    | some (.ok b) => (true, out.map fun _ => b.offset)
    | _ => (false, out)
  | .access _ _ _ => fun answer =>
    match answer with
    | some (.ok bytes) => some bytes
    | _ => none

/-! ## One call -/

/-- The status of a message sent is a number. -/
theorem code_ofSent (answer : Except Fault Unit) :
    (Status.ofSent answer).code = statusOf (some answer) := by
  cases answer with
  | ok => rfl
  | error fault => cases fault <;> rfl

/-- A caller is told what he should be. -/
theorem ofMessage_eq (msg : Message) : MessageInfo.ofMessage msg = infoOf msg := by
  obtain ⟨label, body⟩ := msg
  cases body <;> rfl

/-- Looking at a message in its slot tells as much as taking it does. -/
theorem receiveWith?_eq {α : Type} (r : Ring) (look : Message → α) (m : Memory) :
    r.receiveWith? (fun msg _ => look msg) m =
      ((r.receive? m).1.map look, (r.receive? m).2) := by
  rw [Ring.receive?, Ring.receiveWith?, Ring.receiveWith?]
  dsimp only
  split <;> rfl

/-- Filling the room in front and keeping the bytes behind it is copying the payload. -/
theorem fill_append (s : Span) (msg : Message) :
    fill (s.bytes.take s.length) msg.body ++
        s.bytes.drop (fill (s.bytes.take s.length) msg.body).length =
      s.copied msg.payload := by
  obtain ⟨bytes, n, hinside⟩ := s
  obtain ⟨label, body⟩ := msg
  have hroom : (bytes.take n).length = n := by
    rw [List.length_take, Nat.min_eq_left hinside]
  cases body with
  | pooled b =>
    simp only [fill, Message.payload, Span.copied, hroom, List.take_append_drop, List.length_nil,
      Nat.zero_min, List.take_zero, List.drop_zero, List.nil_append]
  | inline payload =>
    simp only [fill, overwrite, Message.payload, Span.copied, hroom]
    by_cases hfits : payload.length ≤ n
    · -- the rest of the room stays, and so does what is behind it
      have hlength : (payload ++ (bytes.take n).drop payload.length).length = n := by
        rw [List.length_append, List.length_drop, hroom]
        omega
      have hrest : (bytes.take n).drop payload.length ++ bytes.drop n =
          bytes.drop payload.length := by
        rw [← List.drop_append_of_le_length (by rwa [hroom]), List.take_append_drop]
      rw [List.take_of_length_le hfits, hlength, Nat.min_eq_left hfits, List.take_length,
        List.append_assoc, hrest]
    · have hfull : n ≤ payload.length := Nat.le_of_not_le hfits
      have hnone : (bytes.take n).drop payload.length = [] :=
        List.drop_eq_nil_iff.2 (by rwa [hroom])
      rw [hnone, List.append_nil, List.length_take, Nat.min_eq_left hfull, Nat.min_eq_right hfull]

namespace World

variable (w : World) (h : Nat)

/-- Making and finding by name. -/
theorem made_eq {α : Type} (hold : Option α → Directory → World) (name : Option (List UInt8))
    (make : String → Directory → Except Failure α × Directory) :
    w.given hold (withName name w.directory make) =
      (succeeded (w.made hold name make).1, (w.made hold name make).2) := by
  rw [withName, made]
  cases nameOf? name with
  | none => rfl
  | some name =>
    dsimp only
    rcases make name w.directory with ⟨_ | _, d⟩
    · next failure => cases failure <;> rfl
    · rfl

/-- Sending a message. -/
theorem sendMessage_eq (msg : Message) :
    ((sendMessage (w.rings h) msg w.directory).1.code,
        w.holdRing h (sendMessage (w.rings h) msg w.directory).2.1
          (sendMessage (w.rings h) msg w.directory).2.2) =
      (statusOf (w.onRing h fun r => r.send msg).1, (w.onRing h fun r => r.send msg).2) := by
  rw [onRing]
  cases hring : w.rings h with
  | none =>
    rw [sendMessage]
    dsimp only
    rw [← hring, holdRing_self]
    rfl
  | some r => exact Prod.ext (code_ofSent _) rfl

/-- Taking a message into the places for it. -/
theorem receiveInto_eq (info : Option MessageInfo) (buffer : Option Span) :
    ((receiveInto (w.rings h) info buffer w.directory).1,
        w.holdRing h (receiveInto (w.rings h) info buffer w.directory).2.1
          (receiveInto (w.rings h) info buffer w.directory).2.2) =
      ((Call.receive h info buffer).reply (w.onRing h Ring.receive?).1,
        (w.onRing h Ring.receive?).2) := by
  rw [onRing, receiveInto]
  cases hring : w.rings h with
  | none =>
    simp only [receive]
    rw [← hring, holdRing_self]
    rfl
  | some r =>
    simp only [receive, Directory.runWith, receiveWith?_eq]
    generalize r.receive? (w.directory.memory r.attachment.object) = received
    obtain ⟨taken, r', m⟩ := received
    cases taken with
    | none => rfl
    | some msg =>
      cases buffer with
      | none => simp only [Option.map_some, Option.map_none, Call.reply, ofMessage_eq]
      | some span =>
        simp only [Option.map_some, Option.elim_some, Call.reply, ofMessage_eq, fill_append]

/-- A call does what its counterpart does, and is replied to as that is answered. -/
theorem perform_eq (c : Call) :
    w.perform c = (c.reply (c.counterpart w).1, (c.counterpart w).2) := by
  cases c with
  -- what makes or finds something replies with a handle or a null
  | createRing h name capacity => exact w.made_eq (w.holdRing h) name _
  | attachRing h name => exact w.made_eq (w.holdRing h) name _
  | createPool h name size => exact w.made_eq (w.holdPool h) name _
  | attachPool h name => exact w.made_eq (w.holdPool h) name _
  -- a null that is released leaves the table of handles as it is
  | releaseRing h =>
    simp only [perform, Call.counterpart]
    cases hring : w.rings h with
    | none =>
      simp only [releaseRing]
      rw [← hring, holdRing_self]
    | some r => rfl
  | releasePool h =>
    simp only [perform, Call.counterpart]
    cases hpool : w.pools h with
    | none =>
      simp only [releasePool]
      rw [← hpool, holdPool_self]
    | some p => rfl
  | send h label data length =>
    simp only [perform, Call.counterpart, Foreign.send, bytesOf?]
    -- without a length the data may be null
    by_cases hlength : length = 0
    · simp only [hlength, if_true]
      exact w.sendMessage_eq h ⟨label, .inline []⟩
    · simp only [hlength, if_false]
      cases data with
      | none =>
        simp only [Option.map_none, holdRing_self]
        rfl
      | some bytes => exact w.sendMessage_eq h ⟨label, .inline (bytes.take length)⟩
  | sendBlock h label b => exact w.sendMessage_eq h ⟨label, .pooled b⟩
  -- the buffer is filled after the message is taken
  | receive h info buffer => exact w.receiveInto_eq h info buffer
  | pending h =>
    simp only [perform, Call.counterpart, Foreign.pending]
    cases w.rings h <;> rfl
  | allocate h size out =>
    simp only [perform, Call.counterpart, allocateInto, Foreign.allocate, onPool]
    cases w.pools h with
    | none => rfl
    | some p =>
      simp only [Directory.run]
      -- a refusal writes nothing to where the block would go
      cases (p.allocate size (w.directory.memory p.attachment.object)).1 <;> rfl
  | deallocate h b =>
    simp only [perform, Call.counterpart, Foreign.deallocate, onPool]
    cases w.pools h with
    | none => rfl
    | some p =>
      simp only [Directory.run]
      rcases (p.deallocate b (w.directory.memory p.attachment.object)).1 with failure | _
      · cases failure <;> rfl
      · rfl
  | access h b f =>
    simp only [perform, Call.counterpart, Foreign.access, onPool]
    cases w.pools h with
    | none => rfl
    | some p =>
      simp only [Directory.run]
      cases (p.edit b (fun old => (.ok old, f old))
        (w.directory.memory p.attachment.object)).1 <;> rfl

end World

/-! ## Calls without a counterpart -/

/-- The handle of a call is null, or the bytes to send are: some are asked for, but none are
pointed at. -/
def Call.Null (w : World) : Call → Prop
  | createRing _ _ _ | attachRing _ _ | createPool _ _ _ | attachPool _ _ => False
  | send h _ data length => w.rings h = none ∨ data = none ∧ length ≠ 0
  | releaseRing h | sendBlock h _ _ | receive h _ _ | pending h => w.rings h = none
  | releasePool h | allocate h _ _ | deallocate h _ | access h _ _ => w.pools h = none

/-- The name in a call is one (`nameOf?_eq_some_iff`). -/
def Call.Named : Call → Prop
  | createRing _ name _ | attachRing _ name | createPool _ name _ | attachPool _ name =>
    (nameOf? name).isSome
  | _ => True

section

variable (w : World) (h : Nat)

/-- A run of bytes names a text if it opens with the bytes of that text, none of which is zero, and
a zero byte follows or nothing at all. -/
theorem nameOf?_eq_some_iff {name : Option (List UInt8)} {s : String} :
    nameOf? name = some s ↔ 0 ∉ Utf8.encode s ∧
      ∃ rest, name = some (Utf8.encode s ++ rest) ∧ ∀ b ∈ rest.head?, b = 0 := by
  constructor
  · intro h
    obtain ⟨bytes, rfl, hdecode⟩ := Option.bind_eq_some_iff.1 h
    have hencode := Utf8.encode_of_decode? hdecode
    rw [hencode]
    refine ⟨fun hmem => ?_, bytes.dropWhile (· != 0), ?_, fun b hb => ?_⟩
    · simpa using List.mem_takeWhile_imp hmem
    · rw [List.takeWhile_append_dropWhile]
    · have hhead := List.head?_dropWhile_not (· != 0) bytes
      rw [Option.mem_def.1 hb] at hhead
      simpa using hhead
  · rintro ⟨hzero, rest, rfl, hrest⟩
    have hfront : ∀ b ∈ Utf8.encode s, (b != 0) = true := fun b hb => by
      simpa using fun h : b = 0 => hzero (h ▸ hb)
    have hnone : rest.takeWhile (· != 0) = [] := by
      cases rest with
      | nil => rfl
      | cons b rest => simp [hrest b rfl]
    rw [nameOf?, Option.bind_some, List.takeWhile_append_of_pos hfront, hnone, List.append_nil,
      Utf8.decode?_encode]

/-- Bytes to send are missing when some are asked for and none are pointed at. -/
theorem bytesOf?_eq_none_iff {data : Option (List UInt8)} {length : Nat} :
    bytesOf? data length = none ↔ data = none ∧ length ≠ 0 := by
  rw [bytesOf?]
  by_cases hlength : length = 0
  · simp [hlength]
  · simp [hlength]

/-- A ring is used through a handle that has one. -/
theorem World.isSome_onRing {α : Type} (operation : Ring → Memory → α × Ring × Memory) :
    (w.onRing h operation).1.isSome ↔ w.rings h ≠ none := by
  rw [onRing]
  cases w.rings h <;> simp

/-- A pool is used through a handle that has one. -/
theorem World.isSome_onPool {α : Type} (operation : Pool → Memory → α × Memory) :
    (w.onPool h operation).1.isSome ↔ w.pools h ≠ none := by
  rw [onPool]
  cases w.pools h <;> simp

/-- Something is made or found under what is a name. -/
theorem World.isSome_made {α : Type} (hold : Option α → Directory → World)
    (name : Option (List UInt8)) (make : String → Directory → Except Failure α × Directory) :
    (w.made hold name make).1.isSome ↔ (nameOf? name).isSome := by
  rw [made]
  cases nameOf? name with
  | none => simp
  | some name =>
    dsimp only
    split <;> simp

/-- A call has a counterpart unless a handle, the bytes to send or the name is missing. -/
theorem isSome_counterpart (c : Call) :
    (c.counterpart w).1.isSome ↔ ¬c.Null w ∧ c.Named := by
  cases c with
  | createRing h name capacity =>
    simp only [Call.counterpart, Call.Null, Call.Named, not_false_eq_true, true_and]
    exact w.isSome_made (w.holdRing h) name _
  | attachRing h name =>
    simp only [Call.counterpart, Call.Null, Call.Named, not_false_eq_true, true_and]
    exact w.isSome_made (w.holdRing h) name _
  | createPool h name size =>
    simp only [Call.counterpart, Call.Null, Call.Named, not_false_eq_true, true_and]
    exact w.isSome_made (w.holdPool h) name _
  | attachPool h name =>
    simp only [Call.counterpart, Call.Null, Call.Named, not_false_eq_true, true_and]
    exact w.isSome_made (w.holdPool h) name _
  | releaseRing h =>
    simp only [Call.counterpart, Call.Null, Call.Named]
    cases w.rings h <;> simp
  | releasePool h =>
    simp only [Call.counterpart, Call.Null, Call.Named]
    cases w.pools h <;> simp
  | send h label data length =>
    -- bytes are missing when some are asked for and none are pointed at
    simp only [Call.counterpart, Call.Null, Call.Named, ← bytesOf?_eq_none_iff, and_true]
    cases bytesOf? data length with
    | none => simp
    | some bytes =>
      simp only [reduceCtorEq, or_false]
      exact w.isSome_onRing h fun r => r.send ⟨label, .inline bytes⟩
  | sendBlock h label b =>
    simp only [Call.counterpart, Call.Null, Call.Named, and_true]
    exact w.isSome_onRing h fun r => r.send ⟨label, .pooled b⟩
  | receive h info buffer =>
    simp only [Call.counterpart, Call.Null, Call.Named, and_true]
    exact w.isSome_onRing h Ring.receive?
  | pending h =>
    simp only [Call.counterpart, Call.Null, Call.Named, and_true, Option.isSome_map]
    exact Option.isSome_iff_ne_none
  | allocate h size out =>
    simp only [Call.counterpart, Call.Null, Call.Named, and_true]
    exact w.isSome_onPool h fun p => p.allocate size
  | deallocate h b =>
    simp only [Call.counterpart, Call.Null, Call.Named, and_true]
    exact w.isSome_onPool h fun p => p.deallocate b
  | access h b f =>
    simp only [Call.counterpart, Call.Null, Call.Named, and_true]
    exact w.isSome_onPool h fun p => p.edit b fun old => (.ok old, f old)

/-- What has no counterpart because of a null does nothing. -/
theorem counterpart_of_null {c : Call} (hnull : c.Null w) : c.counterpart w = (none, w) := by
  cases c with
  | createRing h name capacity => exact hnull.elim
  | attachRing h name => exact hnull.elim
  | createPool h name size => exact hnull.elim
  | attachPool h name => exact hnull.elim
  | releaseRing h => simp only [Call.counterpart, show w.rings h = none from hnull]
  | releasePool h => simp only [Call.counterpart, show w.pools h = none from hnull]
  | send h label data length =>
    simp only [Call.counterpart]
    obtain hring | hmissing := hnull
    · cases bytesOf? data length with
      | none => rfl
      | some bytes => simp only [World.onRing, hring]
    · simp only [bytesOf?_eq_none_iff.2 hmissing]
  | sendBlock h label b =>
    simp only [Call.counterpart, World.onRing, show w.rings h = none from hnull]
  | receive h info buffer =>
    simp only [Call.counterpart, World.onRing, show w.rings h = none from hnull]
  | pending h =>
    simp only [Call.counterpart, show w.rings h = none from hnull, Option.map_none]
  | allocate h size out =>
    simp only [Call.counterpart, World.onPool, show w.pools h = none from hnull]
  | deallocate h b =>
    simp only [Call.counterpart, World.onPool, show w.pools h = none from hnull]
  | access h b f =>
    simp only [Call.counterpart, World.onPool, show w.pools h = none from hnull]

/-- Under what is no name nothing is made or found, and the handle is null from then on. -/
theorem directory_of_unnamed {c : Call} (hunnamed : ¬c.Named) :
    (c.counterpart w).1 = none ∧ (c.counterpart w).2.directory = w.directory := by
  have hnone : ∀ {α : Type} (hold : Option α → Directory → World) (name : Option (List UInt8))
      (make : String → Directory → Except Failure α × Directory), ¬(nameOf? name).isSome →
      w.made hold name make = (none, hold none w.directory) := fun hold name make hname => by
    rw [World.made, Option.not_isSome_iff_eq_none.1 hname]
  cases c with
  | createRing h name capacity =>
    rw [Call.counterpart, hnone _ _ _ hunnamed]
    exact ⟨rfl, rfl⟩
  | attachRing h name =>
    rw [Call.counterpart, hnone _ _ _ hunnamed]
    exact ⟨rfl, rfl⟩
  | createPool h name size =>
    rw [Call.counterpart, hnone _ _ _ hunnamed]
    exact ⟨rfl, rfl⟩
  | attachPool h name =>
    rw [Call.counterpart, hnone _ _ _ hunnamed]
    exact ⟨rfl, rfl⟩
  | _ => exact absurd trivial hunnamed

end

/-! ## Runs -/

/-- What may happen: a foreign call, the native call in its place, or something done to the
directory or to the handles in any other way. -/
inductive Step
  | foreign (c : Call)
  | native (c : Call)
  | elsewhere (change : World → World)

/-- The step with the native call in place of the foreign one. -/
def Step.replaced : Step → Step
  | foreign c => .native c
  | s => s

/-- What whoever takes a step is told. -/
inductive Outcome
  | reply (c : Call) (r : c.Reply)
  | answer (c : Call) (a : Option c.Answer)
  | nothing

namespace World

/-- What a step does. -/
def step (w : World) : Step → Outcome × World
  | .foreign c => (.reply c (w.perform c).1, (w.perform c).2)
  | .native c => (.answer c (c.counterpart w).1, (c.counterpart w).2)
  | .elsewhere change => (.nothing, change w)

/-- What is told step by step, and where it ends. -/
def run (w : World) : List Step → List Outcome × World
  | [] => ([], w)
  | s :: steps =>
    let (told, w) := w.step s
    let (rest, w) := w.run steps
    (told :: rest, w)

end World

/-- Two outcomes are the same, or the first is the reply that goes with the second. -/
inductive Outcome.Matches : Outcome → Outcome → Prop
  | same (o : Outcome) : Outcome.Matches o o
  | reply (c : Call) (a : Option c.Answer) : Outcome.Matches (.reply c (c.reply a)) (.answer c a)

/-- A step and the one that replaces it do the same, and what is told matches. -/
theorem World.step_replaced (w : World) (s : Step) :
    (w.step s.replaced).2 = (w.step s).2 ∧ (w.step s).1.Matches (w.step s.replaced).1 := by
  cases s with
  | foreign c =>
    simp only [Step.replaced, step, perform_eq, true_and]
    exact .reply c (c.counterpart w).1
  | native c => exact ⟨rfl, .same _⟩
  | elsewhere change => exact ⟨rfl, .same _⟩

/-- In every run of foreign calls, native calls and whatever else, each foreign call can be
replaced by its counterpart: the directory and the handles come out the same, and what a foreign
caller is told is what goes with the native answer. A call has a counterpart exactly when no handle
and no bytes to send are null and a name, if it takes one, is one; with a null it changes nothing,
and without a name it changes no object. -/
theorem run_counterparts :
    (∀ (w : World) (steps : List Step),
      (w.run (steps.map Step.replaced)).2 = (w.run steps).2 ∧
      List.Forall₂ Outcome.Matches (w.run steps).1 (w.run (steps.map Step.replaced)).1) ∧
    ∀ (w : World) (c : Call),
      ((c.counterpart w).1.isSome ↔ ¬c.Null w ∧ c.Named) ∧
      (c.Null w → w.perform c = (c.reply none, w)) ∧
      (¬c.Named → (w.perform c).1 = c.reply none ∧
        (w.perform c).2.directory = w.directory) := by
  refine ⟨fun w steps => ?_,
    fun w c => ⟨isSome_counterpart w c, fun hnull => ?_, fun hunnamed => ?_⟩⟩
  · -- both runs are in the same world before every step
    induction steps generalizing w with
    | nil => exact ⟨rfl, .nil⟩
    | cons s steps ih =>
      obtain ⟨hworld, htold⟩ := w.step_replaced s
      obtain ⟨hend, hrest⟩ := ih (w.step s).2
      simp only [List.map_cons, World.run, hworld]
      exact ⟨hend, .cons htold hrest⟩
  · rw [w.perform_eq, counterpart_of_null w hnull]
  · obtain ⟨hnone, hdirectory⟩ := directory_of_unnamed w hunnamed
    rw [w.perform_eq, hnone]
    exact ⟨rfl, hdirectory⟩

/-- With null handles a message is neither taken nor are the places for it written to; five bytes
that nobody points at are not sent; and a lone byte of no text is no name for a ring. -/
theorem run_counterparts_null :
    let w : World := ⟨Directory.empty, fun _ => none, fun _ => none⟩
    let info : MessageInfo := ⟨⟨1, 2, 3⟩, 4, false, ⟨0, 0⟩⟩
    let ring : Ring := ⟨⟨0, "events", 896, true⟩, 2, 0, 0, default⟩
    let x : World := ⟨Directory.empty, fun _ => some ring, fun _ => none⟩
    w.perform (.receive 0 (some info) (some ⟨[7, 8], 1, by decide⟩)) =
        ((false, some info, some [7, 8]), w) ∧
      x.perform (.send 0 ⟨1, 2, 3⟩ none 5) = (-1, x) ∧
      (w.perform (.createRing 0 (some [0xff]) 4)).1 = .ok false ∧
      (w.perform (.createRing 0 (some [0xff]) 4)).2.directory = w.directory := by
  intro w info ring x
  refine ⟨?_, ?_, ?_⟩
  · exact (run_counterparts.2 w _).2.1 rfl
  · exact (run_counterparts.2 x _).2.1 (.inr ⟨rfl, by decide⟩)
  · refine (run_counterparts.2 w _).2.2 ?_
    show ¬(nameOf? (some [0xff])).isSome = true
    decide +kernel

end Foreign
end SharedExchange
