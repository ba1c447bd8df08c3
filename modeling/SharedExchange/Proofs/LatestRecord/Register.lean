import SharedExchange.Fault

/-! # A register

What those who share a cell may believe to share: the record published last, the one that is being
written, and for every handle whether it has news.

A `Ledger` is a register some of whose writes are given up before they are published. Of these it
keeps count, for each of the two slots that the records use in turn, and readers of a slot in which
an odd number was given up wait in vain. -/

namespace SharedExchange.LatestRecord

/-- What can be asked through the handles. A write that is under way is changed and published
without naming one. -/
inductive Operation (α : Type)
  | write (handle : Nat) (record : List UInt8)
  | beginWrite (handle : Nat)
  | edit (offset : Nat) (bytes : List UInt8)
  | publish
  | read (handle : Nat)
  | readWith (handle : Nat) (visit : List UInt8 → α)
  | readUpdate (handle : Nat) (atHand : List UInt8)
  | hasUpdate (handle : Nat)
  | generation (handle : Nat)
  | attach

/-- Whether an operation looks at the record. -/
def Operation.reads {α : Type} : Operation α → Bool
  | .read _ | .readWith _ _ | .readUpdate _ _ => true
  | _ => false

/-- What is answered. What nobody can ask for is passed over: a handle that does not exist, a record
or an edit of the wrong size, a second write while one is under way. -/
inductive Answer (α : Type)
  | done
  | passed
  | draft (bytes : List UInt8)
  | record (found : Option (List UInt8))
  | visited (result : Option α)
  | update (found : Option (Bool × List UInt8))
  | hasUpdate (b : Bool)
  | generation (n : Nat)
  | attached (outcome : Except Failure Unit)

variable {α : Type}

/-- A register that holds the latest record. -/
structure Register where
  record : List UInt8
  /-- How many records were published after the first. -/
  published : Nat
  /-- For every handle, whether a record was published since it last read, or was made. -/
  news : List Bool
  /-- The write that is under way. -/
  draft : Option (List UInt8)
  /-- What whoever asks for a handle is told. -/
  entry : Except Fault Unit

namespace Register

/-- Only the maker has a handle, and nothing was published. -/
def fresh (first : List UInt8) (entry : Except Fault Unit) : Register :=
  ⟨first, 0, [false], none, entry⟩

/-- A record that is published is news to all. -/
def publish (r : Register) (record : List UInt8) : Register :=
  ⟨record, r.published + 1, r.news.map fun _ => true, none, r.entry⟩

/-- A handle has read the record. -/
def look (r : Register) (handle : Nat) : Register := { r with news := r.news.set handle false }

/-- What is asked through a handle, which has news or has not. -/
def via (r : Register) (handle : Nat) (ask : Bool → Answer α × Register) : Answer α × Register :=
  match r.news[handle]? with
  | some news => ask news
  | none => (.passed, r)

/-- What a register answers, and what becomes of it. -/
def step (r : Register) : Operation α → Answer α × Register
  | .write handle record =>
    r.via handle fun _ =>
      match r.draft with
      | none => if record.length = r.record.length then (.done, r.publish record) else (.passed, r)
      | some _ => (.passed, r)
  | .beginWrite handle =>
    r.via handle fun _ =>
      match r.draft with
      | none => (.draft r.record, { r with draft := some r.record })
      | some _ => (.passed, r)
  | .edit offset bytes =>
    match r.draft with
    | some old =>
      if offset + bytes.length ≤ old.length then
        let new := old.take offset ++ bytes ++ old.drop (offset + bytes.length)
        (.draft new, { r with draft := some new })
      else (.passed, r)
    | none => (.passed, r)
  | .publish =>
    match r.draft with
    | some record => (.done, r.publish record)
    | none => (.passed, r)
  | .read handle => r.via handle fun _ => (.record (some r.record), r.look handle)
  | .readWith handle visit =>
    r.via handle fun _ => (.visited (some (visit r.record)), r.look handle)
  | .readUpdate handle atHand =>
    r.via handle fun news =>
      if news then (.update (some (true, r.record)), r.look handle)
      else (.update (some (false, atHand)), r)
  | .hasUpdate handle => r.via handle fun news => (.hasUpdate news, r)
  | .generation handle => r.via handle fun _ => (.generation r.published, r)
  | .attach =>
    match r.entry with
    | .ok () => (.attached (.ok ()), { r with news := r.news ++ [false] })
    | .error fault => (.attached (.error (.refused fault)), r)

/-- The register after operations in their order. -/
def after (r : Register) : List (Operation α) → Register
  | [] => r
  | operation :: operations => (r.step operation).2.after operations

/-- The answers to operations in their order. -/
def run (r : Register) : List (Operation α) → List (Answer α)
  | [] => []
  | operation :: operations => (r.step operation).1 :: (r.step operation).2.run operations

/-- Operations are answered one after the other. -/
theorem after_append (r : Register) (earlier later : List (Operation α)) :
    r.after (earlier ++ later) = (r.after earlier).after later := by
  induction earlier generalizing r with
  | nil => rfl
  | cons operation earlier ih => exact ih _

/-- No operation takes back what was published. -/
theorem published_le_step (r : Register) (operation : Operation α) :
    r.published ≤ (r.step operation).2.published := by
  cases operation
  all_goals
    simp only [step, via]
    repeat' split
    all_goals first
      | exact Nat.le_refl _
      | exact Nat.le_succ _

/-- Nothing that was published is taken back. -/
theorem published_le_after (r : Register) (operations : List (Operation α)) :
    r.published ≤ (r.after operations).published := by
  induction operations generalizing r with
  | nil => exact Nat.le_refl _
  | cons operation operations ih => exact Nat.le_trans (r.published_le_step operation) (ih _)

end Register

/-! ## Writes that are given up -/

/-- What may happen to a cell: something is asked of it, or the write under way is given up. -/
inductive Move (α : Type)
  | ask (operation : Operation α)
  | abandon

/-- What a register answers when its record cannot be read. -/
def Register.stall (r : Register) : Operation α → Answer α × Register
  | .read handle => r.via handle fun _ => (.record none, r)
  | .readWith handle _ => r.via handle fun _ => (.visited none, r)
  | .readUpdate handle atHand =>
    r.via handle fun news =>
      if news then (.update none, r) else (.update (some (false, atHand)), r)
  | operation => r.step operation

/-- Nor does one that finds no record. -/
theorem Register.published_le_stall (r : Register) (operation : Operation α) :
    r.published ≤ (r.stall operation).2.published := by
  cases operation
  case read | readWith | readUpdate =>
    simp only [stall, via]
    repeat' split
    all_goals exact Nat.le_refl _
  all_goals exact r.published_le_step _

/-- A register, and how many writes were given up in each slot. -/
structure Ledger where
  register : Register
  abandoned : Nat → Nat

namespace Ledger

/-- Nothing was given up. -/
def fresh (first : List UInt8) (entry : Except Fault Unit) : Ledger :=
  ⟨.fresh first entry, fun _ => 0⟩

/-- The slot of the record published last. The next record goes to the other one. -/
def slot (l : Ledger) : Nat := l.register.published % 2

/-- Whether readers of a slot wait in vain. -/
def off (l : Ledger) (slot : Nat) : Bool := l.abandoned slot % 2 == 1

/-- What is answered to an operation, by the state of the slot that readers look at. -/
def reply (l : Ledger) (operation : Operation α) : Answer α × Register :=
  if l.off l.slot then l.register.stall operation else l.register.step operation

/-- What a ledger answers, and what becomes of it. -/
def step (l : Ledger) : Move α → Answer α × Ledger
  | .ask operation => ((l.reply operation).1, { l with register := (l.reply operation).2 })
  | .abandon =>
    match l.register.draft with
    | some _ =>
      (.done,
        { register := { l.register with draft := none }
          abandoned := fun slot =>
            l.abandoned slot + if slot = (l.register.published + 1) % 2 then 1 else 0 })
    | none => (.passed, l)

/-- The ledger after moves in their order. -/
def after (l : Ledger) : List (Move α) → Ledger
  | [] => l
  | move :: moves => (l.step move).2.after moves

/-- The answers to moves in their order. -/
def run (l : Ledger) : List (Move α) → List (Answer α)
  | [] => []
  | move :: moves => (l.step move).1 :: (l.step move).2.run moves

/-- Moves are made one after the other. -/
theorem after_append (l : Ledger) (earlier later : List (Move α)) :
    l.after (earlier ++ later) = (l.after earlier).after later := by
  induction earlier generalizing l with
  | nil => rfl
  | cons move earlier ih => exact ih _

/-- No move takes back what was published. -/
theorem published_le_step (l : Ledger) (move : Move α) :
    l.register.published ≤ (l.step move).2.register.published := by
  cases move with
  | ask operation =>
    rw [step, reply]
    split
    · exact l.register.published_le_stall operation
    · exact l.register.published_le_step operation
  | abandon =>
    rw [step]
    split <;> exact Nat.le_refl _

/-- Nothing that was published is taken back, whatever is given up. -/
theorem published_le_after (l : Ledger) (moves : List (Move α)) :
    l.register.published ≤ (l.after moves).register.published := by
  induction moves generalizing l with
  | nil => exact Nat.le_refl _
  | cons move moves ih => exact Nat.le_trans (l.published_le_step move) (ih _)

end Ledger

end SharedExchange.LatestRecord
