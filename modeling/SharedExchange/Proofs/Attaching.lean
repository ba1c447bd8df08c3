import Mathlib.Tactic
import SharedExchange.Arena.Region
import SharedExchange.LatestRecord
import SharedExchange.Pool.Basic
import SharedExchange.Ring.Basic

/-! # What a handle believes of an object

Whoever attaches to an object that somebody else made reads from its header how large the structure
is, and compares the end of its data area with the size of the object. The end is worked out in
words. So there are three outcomes, and for each of the four structures it is told exactly when each
of them comes (`attached_iff`): the header is in order and the data area lies inside the object, and
there is a handle (`Found`); the header is so far in order, but the end of the data area is no word,
and the attempt breaks off (`Overruns`); or the attempt is refused. -/

namespace SharedExchange

/-! ## Steps that may fail -/

section

variable {ε α β : Type} {failure : ε} {a b : α}

/-- A sequence of steps succeeds when each of them does. -/
theorem bind_eq_ok_iff {first : Except ε α} {next : α → Except ε β} {b : β} :
    first >>= next = .ok b ↔ ∃ a, first = .ok a ∧ next a = .ok b := by
  cases first with
  | error failure => simp [bind, Except.bind]
  | ok a => simp [bind, Except.bind]

/-- A result is a success with that very result. -/
theorem pure_eq_ok_iff : (pure a : Except ε α) = .ok b ↔ a = b := by
  simp [pure, Except.pure]

/-- What is left of an outcome without its failures is what it was a success with. -/
theorem toOption_eq_some_iff {answer : Except ε α} :
    answer.toOption = some a ↔ answer = .ok a := by
  cases answer <;> simp [Except.toOption]

/-- A function of the result makes no success out of a failure. -/
theorem map_eq_ok_iff {answer : Except ε α} {f : α → β} {b : β} :
    answer.map f = .ok b ↔ ∃ a, answer = .ok a ∧ f a = b := by
  cases answer <;> simp [Except.map]

/-- A function of the result leaves failures as they are. -/
theorem map_eq_error_iff {answer : Except ε α} {f : α → β} :
    answer.map f = .error failure ↔ answer = .error failure := by
  cases answer <;> simp [Except.map]

/-- Another word for a failure makes no success out of it. -/
theorem mapError_eq_ok_iff {ε' : Type} {answer : Except ε α} {f : ε → ε'} :
    answer.mapError f = .ok a ↔ answer = .ok a := by
  cases answer <;> simp [Except.mapError]

/-- A step behind a refusal is reached when there is no reason to refuse. -/
theorem refuse_eq_ok_iff {reason : Prop} [Decidable reason] {next : Except ε α} :
    (if reason then (throw failure : Except ε PUnit) >>= fun _ => next else next) = .ok b ↔
      ¬reason ∧ next = .ok b := by
  by_cases h : reason
  · simp [h, bind, Except.bind, throw, throwThe, MonadExceptOf.throw]
  · simp [h]

end

section

variable {α β : Type} {fault : Fault} {crash : Crash}

/-- A step that may only be refused succeeds among steps that may also break off when it does by
itself. -/
theorem lift_eq_ok_iff {step : Except Fault α} {a : α} :
    (liftM step : Except Failure α) = .ok a ↔ step = .ok a := by
  cases step <;> simp [liftM, monadLift, MonadLift.monadLift, Except.mapError]

/-- A step that may only be refused does not break off. -/
theorem lift_ne_crashed {step : Except Fault α} :
    (liftM step : Except Failure α) ≠ .error (.crashed crash) := by
  cases step <;> simp [liftM, monadLift, MonadLift.monadLift, Except.mapError]

/-- A sequence of steps breaks off when one of them does and all before it succeed. -/
theorem bind_eq_crashed_iff {first : Except Failure α} {next : α → Except Failure β} :
    first >>= next = .error (.crashed crash) ↔
      first = .error (.crashed crash) ∨ ∃ a, first = .ok a ∧ next a = .error (.crashed crash) := by
  cases first with
  | error failure => simp [bind, Except.bind]
  | ok a => simp [bind, Except.bind]

/-- A refusal keeps a later step from breaking off. -/
theorem refuse_eq_crashed_iff {reason : Prop} [Decidable reason] {next : Except Failure α} :
    (if reason then (throw (.refused fault) : Except Failure PUnit) >>= fun _ => next else next) =
        .error (.crashed crash) ↔ ¬reason ∧ next = .error (.crashed crash) := by
  by_cases h : reason
  · simp [h, bind, Except.bind, throw, throwThe, MonadExceptOf.throw]
  · simp [h]

/-- A computation in words breaks off when its outcome is none. -/
theorem checked_eq_crashed_iff {n : Nat} :
    checked n = .error (.crashed crash) ↔ UInt64.size ≤ n ∧ crash = .overflow := by
  rw [checked]
  split
  · next hlt => simp [Nat.not_le.2 hlt]
  · next hge => simp [Nat.not_lt.1 hge, eq_comm]

end

/-- The header fits into the object and opens with the signature. -/
structure Signature.Opens (s : Signature) (m : Memory) : Prop where
  header_le : s.headerSize ≤ m.size
  magic_eq : m.load32 0 = s.magic
  version_eq : m.load32 4 = version

/-- The check of a signature is passed by the objects that open with it. -/
theorem Signature.check_eq_ok_iff {s : Signature} {m : Memory} {u : Unit} :
    s.check m = .ok u ↔ s.Opens m := by
  rw [check]
  simp only [refuse_eq_ok_iff]
  constructor
  · rintro ⟨hsize, hmagic, h⟩
    refine ⟨Nat.not_lt.1 hsize, not_not.1 hmagic, ?_⟩
    by_contra hversion
    rw [if_pos hversion] at h
    cases h
  · rintro ⟨hsize, hmagic, hversion⟩
    exact ⟨Nat.not_lt.2 hsize, not_not.2 hmagic, if_neg (not_not.2 hversion)⟩

/-- An object opens with a signature that was written into it when all that is written afterwards
stands behind it. -/
theorem Signature.opens_of_front {s : Signature} {m m' : Memory} (hsize : s.headerSize ≤ m'.size)
    (hfront : ∀ i < 8, m'.get i = (s.write m).get i) : s.Opens m' := by
  have hword : ∀ position, position + 4 ≤ 8 →
      m'.load32 position = (s.write m).load32 position := fun position hle =>
    Memory.load32_congr fun i _ hi => hfront i (hi.trans_le hle)
  refine ⟨hsize, ?_, ?_⟩
  · rw [hword 0 (by decide), write, Memory.load32_store32_of_disjoint _ _ (.inl (by decide)),
      Memory.load32_store32_same]
  · rw [hword 4 (by decide), write, Memory.load32_store32_same]

namespace Directory

variable {d d' : Directory} {name : String} {a : Attachment}

/-! ## Finding an object -/

/-- A mapping is made when the system has nothing against it and it is not too large. -/
theorem checkMapping_eq_ok_iff {size : Nat} {u : Unit} :
    d.checkMapping name size = .ok u ↔
      d.objection name (.map size) = none ∧ size ≤ mappingLimit := by
  rw [checkMapping, bind_eq_ok_iff]
  by_cases h : mappingLimit < size
  · simp [h, Nat.not_le.2 h, throw, throwThe, MonadExceptOf.throw]
  · simp [h, Nat.not_lt.1 h, ask_eq_ok_iff, pure, Except.pure]

/-- A name leads to an object that can be held, and this is the hold of somebody who finds it. -/
structure Offers (d : Directory) (name : String) (a : Attachment) : Prop where
  name_ok : checkName name = .ok ()
  find_ok : d.objection name .find = none
  named : d.names[name]? = some (.object a.object)
  measure_ok : d.objection name .measure = none
  size_ne : (d.memory a.object).size ≠ 0
  map_ok : d.objection name (.map (d.memory a.object).size) = none
  size_le : (d.memory a.object).size ≤ mappingLimit
  hold_eq : a = ⟨a.object, name, (d.memory a.object).size, false⟩

/-- An object is held when a name offers it. -/
theorem attach_eq_ok_iff : d.attach name = .ok a ↔ d.Offers name a := by
  simp only [attach, bind_eq_ok_iff, ask_eq_ok_iff]
  constructor
  · rintro ⟨_, hname, _, hfind, h⟩
    split at h
    · cases h
    · cases h
    · next id hnamed =>
      simp only [bind_eq_ok_iff, refuse_eq_ok_iff, pure_eq_ok_iff, ask_eq_ok_iff,
        checkMapping_eq_ok_iff] at h
      obtain ⟨-, hmeasure, hsize, -, ⟨hmap, hlimit⟩, rfl⟩ := h
      exact ⟨hname, hfind, hnamed, hmeasure, hsize, hmap, hlimit, rfl⟩
  · intro h
    refine ⟨(), h.name_ok, (), h.find_ok, ?_⟩
    rw [h.named]
    simp only [bind_eq_ok_iff, refuse_eq_ok_iff, pure_eq_ok_iff, ask_eq_ok_iff,
      checkMapping_eq_ok_iff]
    exact ⟨(), h.measure_ok, h.size_ne, (), ⟨h.map_ok, h.size_le⟩, h.hold_eq.symm⟩

/-- Whether an object can be held depends on its size and on the system alone. -/
theorem attach_map_congr {d₀ : Directory} {id id₀ : ObjectId}
    (hobjection : d.objection = d₀.objection) (hnamed : d.names[name]? = some (.object id))
    (hnamed₀ : d₀.names[name]? = some (.object id₀))
    (hsize : (d.memory id).size = (d₀.memory id₀).size) :
    (d.attach name).map (fun _ => ()) = (d₀.attach name).map fun _ => () := by
  have hask : ∀ call fault, d.ask name call fault = d₀.ask name call fault := fun call fault => by
    rw [ask, hobjection, ask]
  rw [attach, attach, hnamed, hnamed₀]
  simp only [hask, checkMapping, hsize]
  -- whatever comes of the checks, both go on or both break off
  cases checkName name with
  | error fault => rfl
  | ok _ =>
    cases d₀.ask name .find (.openingRefused name) with
    | error fault => rfl
    | ok _ =>
      cases d₀.ask name .measure (.openingRefused name) with
      | error fault => rfl
      | ok _ =>
        simp only [bind, Except.bind]
        split
        · rfl
        · split <;> rfl

/-- An object that can be held is no larger than an address space. -/
theorem size_le_of_attach (h : d.attach name = .ok a) :
    (d.memory a.object).size ≤ mappingLimit :=
  (attach_eq_ok_iff.1 h).size_le

/-- The sizes of objects that can be held are words. -/
theorem size_lt_of_attach (h : d.attach name = .ok a) :
    (d.memory a.object).size < UInt64.size :=
  (size_le_of_attach h).trans_lt (by decide)

/-- Whoever finds an object is not its maker. -/
theorem owner_of_attach (h : d.attach name = .ok a) : a.owner = false := by
  rw [(attach_eq_ok_iff.1 h).hold_eq]

/-- A peer that lets go of an object takes no name with it. -/
theorem release_of_peer (d : Directory) (h : a.owner = false) : d.release a = d := by
  rw [release, if_neg (by simp [h])]

/-- Nobody who looks for a structure changes anything, not even by letting go of the object that has
no such structure in it. -/
theorem examine_snd {α : Type} (d : Directory) (name : String)
    (read : Attachment → Memory → Except Failure α) : (d.examine name read).2 = d := by
  rw [examine]
  split
  · rfl
  · next a hattach =>
    split
    · exact d.release_of_peer (owner_of_attach hattach)
    · rfl

/-- A structure is found in the object that a name offers, by its header. -/
theorem examine_eq_ok_iff {α : Type} {read : Attachment → Memory → Except Failure α}
    {handle : α} : d.examine name read = (.ok handle, d') ↔
      (∃ a, d.attach name = .ok a ∧ read a (d.memory a.object) = .ok handle) ∧ d' = d := by
  have hsnd := examine_snd d name read
  rw [examine] at hsnd ⊢
  cases d.attach name with
  | error fault => simp
  | ok a =>
    cases hread : read a (d.memory a.object) with
    | error failure => simp [hread]
    | ok found => simp [hread, eq_comm]

/-- Where the header of an object is not that of a structure, the search fails for that reason. -/
theorem examine_of_unread {α : Type} {read : Attachment → Memory → Except Failure α}
    {failure : Failure} (hfound : d.attach name = .ok a)
    (hread : read a (d.memory a.object) = .error failure) :
    d.examine name read = (.error failure, d) := by
  rw [examine, hfound]
  dsimp only
  rw [hread]
  exact congrArg (Prod.mk _) (d.release_of_peer (owner_of_attach hfound))

/-- The search for a structure breaks off when the reading of the header does. -/
theorem examine_eq_crashed_iff {α : Type} {read : Attachment → Memory → Except Failure α}
    {crash : Crash} : (d.examine name read).1 = .error (.crashed crash) ↔
      ∃ a, d.attach name = .ok a ∧ read a (d.memory a.object) = .error (.crashed crash) := by
  rw [examine]
  cases d.attach name with
  | error fault => simp
  | ok a =>
    cases hread : read a (d.memory a.object) with
    | error failure => simp [hread]
    | ok found => simp [hread]

end Directory

/-! ## Structures as their headers tell of them -/

/-- What the header of a structure has to say to whoever looks for it. -/
structure Outline where
  /-- What is looked at before the end of the data area is worked out. -/
  Headed : Memory → Prop
  /-- What is looked at along with the end. -/
  Regular : Memory → Prop
  /-- Where the data area ends. -/
  areaEnd : Memory → Nat

/-- A name leads to an object whose header is in order and whose data area lies inside it. -/
structure Found (d : Directory) (name : String) (outline : Outline) (a : Attachment) : Prop where
  attach_eq : d.attach name = .ok a
  headed : outline.Headed (d.memory a.object)
  regular : outline.Regular (d.memory a.object)
  inside : outline.areaEnd (d.memory a.object) ≤ (d.memory a.object).size

/-- A name leads to an object whose data area ends beyond the words, by a header that is otherwise
in order as far as it was looked at. -/
structure Overruns (d : Directory) (name : String) (outline : Outline) (a : Attachment) : Prop where
  attach_eq : d.attach name = .ok a
  headed : outline.Headed (d.memory a.object)
  beyond : UInt64.size ≤ outline.areaEnd (d.memory a.object)

section

variable {d d' : Directory} {name : String} {outline : Outline} {a : Attachment} {α : Type}
variable {read : Attachment → Memory → Except Failure α} {handle : Attachment → Memory → α}

/-- Whoever finds something is not its maker. -/
theorem Found.owner_eq (h : Found d name outline a) : a.owner = false :=
  Directory.owner_of_attach h.attach_eq

/-- A way to read headers keeps to an outline, and makes these handles. -/
structure Outline.ReadBy (outline : Outline) (read : Attachment → Memory → Except Failure α)
    (handle : Attachment → Memory → α) : Prop where
  ok_iff : ∀ a m h, read a m = .ok h ↔ outline.Headed m ∧ outline.areaEnd m < UInt64.size ∧
    outline.Regular m ∧ outline.areaEnd m ≤ m.size ∧ h = handle a m
  crashed_iff : ∀ a m crash, read a m = .error (.crashed crash) ↔
    outline.Headed m ∧ UInt64.size ≤ outline.areaEnd m ∧ crash = .overflow

/-- What comes of looking for a structure: a handle, a breakdown, or else a refusal. The directory
is never changed. -/
structure Answered (outline : Outline) (handle : Attachment → Memory → α) (d : Directory)
    (name : String) (answer : Except Failure α × Directory) : Prop where
  ok_iff : ∀ h, answer.1 = .ok h ↔
    ∃ a, Found d name outline a ∧ h = handle a (d.memory a.object)
  crashed_iff : ∀ crash, answer.1 = .error (.crashed crash) ↔
    crash = .overflow ∧ ∃ a, Overruns d name outline a
  refused_iff : (∃ fault, answer.1 = .error (.refused fault)) ↔
    ∀ a, ¬Found d name outline a ∧ ¬Overruns d name outline a
  unchanged : answer.2 = d

/-- Whoever looks for a structure gets its handle when it is found. -/
theorem Outline.ReadBy.examine_eq_ok_iff (hread : outline.ReadBy read handle) {h : α} :
    d.examine name read = (.ok h, d') ↔
      (∃ a, Found d name outline a ∧ h = handle a (d.memory a.object)) ∧ d' = d := by
  rw [Directory.examine_eq_ok_iff]
  refine and_congr_left fun _ => exists_congr fun a => ?_
  rw [hread.ok_iff]
  constructor
  · rintro ⟨hattach, hheaded, -, hregular, hinside, hh⟩
    exact ⟨⟨hattach, hheaded, hregular, hinside⟩, hh⟩
  · rintro ⟨⟨hattach, hheaded, hregular, hinside⟩, hh⟩
    exact ⟨hattach, hheaded, hinside.trans_lt (Directory.size_lt_of_attach hattach), hregular,
      hinside, hh⟩

/-- Whoever looks for a structure by its outline is answered by that. -/
theorem Outline.ReadBy.answered_examine (hread : outline.ReadBy read handle) (d : Directory)
    (name : String) : Answered outline handle d name (d.examine name read) := by
  have hsnd := d.examine_snd name read
  have hok : ∀ h, (d.examine name read).1 = .ok h ↔
      ∃ a, Found d name outline a ∧ h = handle a (d.memory a.object) := fun h => by
    rw [← and_iff_left (a := ∃ a, Found d name outline a ∧ _) (b := d = d) rfl,
      ← hread.examine_eq_ok_iff, Prod.ext_iff]
    simp only [hsnd, and_true]
  have hcrashed : ∀ crash, (d.examine name read).1 = .error (.crashed crash) ↔
      crash = .overflow ∧ ∃ a, Overruns d name outline a := fun crash => by
    rw [Directory.examine_eq_crashed_iff]
    simp only [hread.crashed_iff]
    constructor
    · rintro ⟨a, hattach, hheaded, hbeyond, rfl⟩
      exact ⟨rfl, a, hattach, hheaded, hbeyond⟩
    · rintro ⟨rfl, a, hattach, hheaded, hbeyond⟩
      exact ⟨a, hattach, hheaded, hbeyond, rfl⟩
  refine ⟨hok, hcrashed, ?_, hsnd⟩
  -- a refusal is what is neither of the others
  constructor
  · rintro ⟨fault, hfault⟩ a
    refine ⟨fun hfound => ?_, fun hoverruns => ?_⟩
    · cases hfault.symm.trans ((hok _).2 ⟨a, hfound, rfl⟩)
    · cases hfault.symm.trans ((hcrashed _).2 ⟨rfl, a, hoverruns⟩)
  · intro hnone
    cases hanswer : (d.examine name read).1 with
    | ok h =>
      obtain ⟨a, hfound, -⟩ := (hok h).1 hanswer
      exact absurd hfound (hnone a).1
    | error failure =>
      cases failure with
      | refused fault => exact ⟨fault, rfl⟩
      | crashed crash =>
        obtain ⟨-, a, hoverruns⟩ := (hcrashed crash).1 hanswer
        exact absurd hoverruns (hnone a).2

end

namespace Ring

/-- The header of a ring, as far as it is looked at before the end of the slots is worked out. -/
structure Headed (m : Memory) : Prop where
  opens : signature.Opens m
  slotSize_eq : m.load64 slotSizeAt = UInt64.ofNat slotSize

/-- Rings as their headers tell of them. -/
def outline : Outline where
  Headed := Headed
  Regular m := (m.load64 capacityAt).toNat.isPowerOfTwo
  areaEnd m := wholeSize (m.load64 capacityAt)

/-- The handle of somebody who finds a ring. -/
def foundHandle (patience : Patience) (a : Attachment) (m : Memory) : Ring :=
  ⟨a, m.load64 capacityAt, m.load64 receivedAt, m.load64 sentAt, patience⟩

/-- The header of a ring is read by the outline of rings. -/
theorem readBy_outline (patience : Patience) :
    outline.ReadBy (ofHeader patience) (foundHandle patience) := by
  refine ⟨fun a m h => ?_, fun a m crash => ?_⟩
  · simp only [outline, ofHeader, bind_eq_ok_iff, lift_eq_ok_iff, refuse_eq_ok_iff, pure_eq_ok_iff,
      Signature.check_eq_ok_iff, checked_eq_ok_iff, not_or, not_not, Nat.not_lt, ne_eq]
    constructor
    · rintro ⟨-, hopens, hslot, _, ⟨hend, rfl⟩, ⟨hpower, hinside⟩, rfl⟩
      exact ⟨⟨hopens, hslot⟩, hend, hpower, hinside, rfl⟩
    · rintro ⟨⟨hopens, hslot⟩, hend, hpower, hinside, rfl⟩
      exact ⟨(), hopens, hslot, _, ⟨hend, rfl⟩, ⟨hpower, hinside⟩, rfl⟩
  · simp only [outline, ofHeader, bind_eq_crashed_iff, lift_eq_ok_iff, lift_ne_crashed,
      refuse_eq_crashed_iff, Signature.check_eq_ok_iff, checked_eq_crashed_iff, false_or, not_not,
      ne_eq, pure, Except.pure, reduceCtorEq, and_false, exists_false, or_false]
    constructor
    · rintro ⟨-, hopens, hslot, hbeyond, rfl⟩
      exact ⟨⟨hopens, hslot⟩, hbeyond, rfl⟩
    · rintro ⟨⟨hopens, hslot⟩, hbeyond, rfl⟩
      exact ⟨(), hopens, hslot, hbeyond, rfl⟩

/-- A ring is attached to when it is found. -/
theorem attach_eq_ok_iff {name : String} {patience : Patience} {d d' : Directory} {r : Ring} :
    attach name patience d = (.ok r, d') ↔
      (∃ a, Found d name outline a ∧ r = foundHandle patience a (d.memory a.object)) ∧ d' = d :=
  (readBy_outline patience).examine_eq_ok_iff

/-- The header of a fresh ring is written inside the object. -/
@[simp] theorem size_format (capacity : UInt64) (m : Memory) :
    (format capacity m).size = m.size := by
  rw [format, Memory.size_store64, Memory.size_store64, Signature.write, Memory.size_store32,
    Memory.size_store32]

/-- The signature of a fresh ring is not written over. -/
theorem get_format_front (capacity : UInt64) (m : Memory) {i : Nat} (hi : i < capacityAt) :
    (format capacity m).get i = (signature.write m).get i := by
  rw [format, Memory.get_store64_of_disjoint _ _ (.inl (hi.trans (by decide))),
    Memory.get_store64_of_disjoint _ _ (.inl hi)]

/-- The header of a fresh ring has its capacity. -/
theorem load64_format_capacity (capacity : UInt64) (m : Memory) :
    (format capacity m).load64 capacityAt = capacity := by
  rw [format, Memory.load64_store64_of_disjoint _ _ (.inl (by decide)), Memory.load64_store64_same]

/-- The header of a fresh ring is in order. -/
theorem headed_format {capacity : UInt64} {m : Memory} (hsize : signature.headerSize ≤ m.size) :
    Headed (format capacity m) := by
  refine ⟨Signature.opens_of_front ?_ fun i hi => get_format_front capacity m hi, ?_⟩
  · rwa [size_format]
  · rw [format, Memory.load64_store64_same]

end Ring

namespace Pool

/-- Pools as their headers tell of them. -/
def outline : Outline where
  Headed := signature.Opens
  Regular _ := True
  areaEnd m := (m.load64 dataStartAt).toNat + (m.load64 sizeAt).toNat

/-- The handle of somebody who finds a pool. -/
def foundHandle (a : Attachment) (m : Memory) : Pool :=
  ⟨a, m.load64 sizeAt, m.load64 dataStartAt⟩

/-- The header of a pool is read by the outline of pools. -/
theorem readBy_outline : outline.ReadBy ofHeader foundHandle := by
  refine ⟨fun a m h => ?_, fun a m crash => ?_⟩
  · simp only [outline, ofHeader, bind_eq_ok_iff, lift_eq_ok_iff, refuse_eq_ok_iff, pure_eq_ok_iff,
      Signature.check_eq_ok_iff, checked_eq_ok_iff, Nat.not_lt]
    constructor
    · rintro ⟨-, hopens, _, ⟨hend, rfl⟩, hinside, rfl⟩
      exact ⟨hopens, hend, trivial, hinside, rfl⟩
    · rintro ⟨hopens, hend, -, hinside, rfl⟩
      exact ⟨(), hopens, _, ⟨hend, rfl⟩, hinside, rfl⟩
  · simp only [outline, ofHeader, bind_eq_crashed_iff, lift_eq_ok_iff, lift_ne_crashed,
      refuse_eq_crashed_iff, Signature.check_eq_ok_iff, checked_eq_crashed_iff, false_or, pure,
      Except.pure, reduceCtorEq, and_false, exists_false, or_false]
    constructor
    · rintro ⟨-, hopens, hbeyond, rfl⟩
      exact ⟨hopens, hbeyond, rfl⟩
    · rintro ⟨hopens, hbeyond, rfl⟩
      exact ⟨(), hopens, hbeyond, rfl⟩

/-- A pool is attached to when it is found. -/
theorem attach_eq_ok_iff {name : String} {d d' : Directory} {p : Pool} :
    attach name d = (.ok p, d') ↔
      (∃ a, Found d name outline a ∧ p = foundHandle a (d.memory a.object)) ∧ d' = d :=
  readBy_outline.examine_eq_ok_iff

end Pool

namespace LatestRecord

/-- The header of a cell for records of a type, as far as it is looked at before the end of the
slots is worked out. -/
structure Headed (type : RecordType) (m : Memory) : Prop where
  opens : signature.Opens m
  size_eq : (m.load64 recordSizeAt).toNat = type.size
  alignment_eq : (m.load64 alignmentAt).toNat = type.alignment

/-- Cells for records of a type as their headers tell of them. -/
def outline (type : RecordType) : Outline where
  Headed := Headed type
  Regular m := (m.load64 slotsStartAt).toNat % type.alignment = 0
  areaEnd m := (m.load64 slotsStartAt).toNat + 2 * type.size

/-- The handle of somebody who finds a cell. -/
def foundHandle (type : RecordType) (a : Attachment) (m : Memory) : LatestRecord :=
  ⟨a, type, m.load64 slotsStartAt, m.load64 generationAt⟩

/-- The header of a cell is read by the outline of cells. -/
theorem readBy_outline (type : RecordType) :
    (outline type).ReadBy (ofHeader type) (foundHandle type) := by
  refine ⟨fun a m h => ?_, fun a m crash => ?_⟩
  · simp only [outline, ofHeader, bind_eq_ok_iff, lift_eq_ok_iff, refuse_eq_ok_iff, pure_eq_ok_iff,
      Signature.check_eq_ok_iff, checked_eq_ok_iff, not_or, not_not, Nat.not_lt, ne_eq]
    constructor
    · rintro ⟨-, hopens, ⟨hsize, halignment⟩, _, ⟨hend, rfl⟩, ⟨haligned, hinside⟩, rfl⟩
      exact ⟨⟨hopens, hsize, halignment⟩, hend, haligned, hinside, rfl⟩
    · rintro ⟨⟨hopens, hsize, halignment⟩, hend, haligned, hinside, rfl⟩
      exact ⟨(), hopens, ⟨hsize, halignment⟩, _, ⟨hend, rfl⟩, ⟨haligned, hinside⟩, rfl⟩
  · simp only [outline, ofHeader, bind_eq_crashed_iff, lift_eq_ok_iff, lift_ne_crashed,
      refuse_eq_crashed_iff, Signature.check_eq_ok_iff, checked_eq_crashed_iff, false_or, not_or,
      not_not, ne_eq, pure, Except.pure, reduceCtorEq, and_false, exists_false, or_false]
    constructor
    · rintro ⟨-, hopens, ⟨hsize, halignment⟩, hbeyond, rfl⟩
      exact ⟨⟨hopens, hsize, halignment⟩, hbeyond, rfl⟩
    · rintro ⟨⟨hopens, hsize, halignment⟩, hbeyond, rfl⟩
      exact ⟨(), hopens, ⟨hsize, halignment⟩, hbeyond, rfl⟩

/-- A cell is attached to when it is found. -/
theorem attach_eq_ok_iff {name : String} {type : RecordType} {d d' : Directory}
    {c : LatestRecord} : attach name type d = (.ok c, d') ↔
      (∃ a, Found d name (outline type) a ∧ c = foundHandle type a (d.memory a.object)) ∧ d' = d :=
  (readBy_outline type).examine_eq_ok_iff

end LatestRecord

namespace Region

/-- The header of a region whose value has been published, as far as it is looked at before the end
of the arena is worked out. -/
structure Headed (m : Memory) : Prop where
  opens : signature.Opens m
  ready : m.load32 stateAt = RegionState.ready.code

/-- Published regions as their headers tell of them. -/
def outline : Outline where
  Headed := Headed
  Regular _ := True
  areaEnd m := (m.load64 arenaStartAt).toNat + (m.load64 capacityAt).toNat

/-- The handle of somebody who finds a region. -/
def foundHandle (a : Attachment) (m : Memory) : Region :=
  ⟨a, m.load64 arenaStartAt, m.load64 capacityAt⟩

/-- The header of a region is read by the outline of published regions. -/
theorem readBy_outline : outline.ReadBy ofHeader foundHandle := by
  refine ⟨fun a m h => ?_, fun a m crash => ?_⟩
  · simp only [outline, ofHeader, bind_eq_ok_iff, lift_eq_ok_iff, refuse_eq_ok_iff, pure_eq_ok_iff,
      Signature.check_eq_ok_iff, checked_eq_ok_iff, not_not, Nat.not_lt, ne_eq]
    constructor
    · rintro ⟨-, hopens, hready, _, ⟨hend, rfl⟩, hinside, rfl⟩
      exact ⟨⟨hopens, hready⟩, hend, trivial, hinside, rfl⟩
    · rintro ⟨⟨hopens, hready⟩, hend, -, hinside, rfl⟩
      exact ⟨(), hopens, hready, _, ⟨hend, rfl⟩, hinside, rfl⟩
  · simp only [outline, ofHeader, bind_eq_crashed_iff, lift_eq_ok_iff, lift_ne_crashed,
      refuse_eq_crashed_iff, Signature.check_eq_ok_iff, checked_eq_crashed_iff, false_or, not_not,
      ne_eq, pure, Except.pure, reduceCtorEq, and_false, exists_false, or_false]
    constructor
    · rintro ⟨-, hopens, hready, hbeyond, rfl⟩
      exact ⟨⟨hopens, hready⟩, hbeyond, rfl⟩
    · rintro ⟨⟨hopens, hready⟩, hbeyond, rfl⟩
      exact ⟨(), hopens, hready, hbeyond, rfl⟩

/-- A region is attached to when it is found, with its value published. -/
theorem attach_eq_ok_iff {name : String} {d d' : Directory} {r : Region} :
    attach name d = (.ok r, d') ↔
      (∃ a, Found d name outline a ∧ r = foundHandle a (d.memory a.object)) ∧ d' = d :=
  readBy_outline.examine_eq_ok_iff

end Region

/-- Each structure is attached to exactly when a name leads to an object with a header in order
whose data area lies inside it, in whole numbers. The attempt breaks off exactly when the data area
ends beyond the words by a header that is in order up to there, and is refused in all other cases.
Nothing is changed by it. -/
theorem attached_iff (d : Directory) (name : String) :
    (∀ patience, Answered Ring.outline (Ring.foundHandle patience) d name
      (Ring.attach name patience d)) ∧
    Answered Pool.outline Pool.foundHandle d name (Pool.attach name d) ∧
    (∀ type, Answered (LatestRecord.outline type) (LatestRecord.foundHandle type) d name
      (LatestRecord.attach name type d)) ∧
    Answered Region.outline Region.foundHandle d name (Region.attach name d) :=
  ⟨fun patience => (Ring.readBy_outline patience).answered_examine d name,
    Pool.readBy_outline.answered_examine d name,
    fun type => (LatestRecord.readBy_outline type).answered_examine d name,
    Region.readBy_outline.answered_examine d name⟩

/-- A ring whose header tells of 2⁵⁶ slots, which end at 2⁶⁴ + 384, in an object of 384 bytes. The
attempt to attach to it breaks off. -/
theorem attached_iff_beyond :
    let m := Ring.format 0x100000000000000 (Memory.zeros 384)
    let d := Directory.empty.place "events" m
    m.size = 384 ∧ Ring.outline.areaEnd m = 384 + 2 ^ 64 ∧
      Ring.attach "events" default d = (.error (.crashed .overflow), d) := by
  intro m d
  have hmemory : d.memory 0 = m := Directory.memory_update_same ..
  have hsize : m.size = 384 := by rfl
  have hend : Ring.outline.areaEnd m = 384 + 2 ^ 64 := by
    show Ring.wholeSize (m.load64 Ring.capacityAt) = _
    rw [Ring.load64_format_capacity]
    rfl
  have hattach : d.attach "events" = .ok ⟨0, "events", (d.memory 0).size, false⟩ := by
    refine Directory.attach_eq_ok_iff.2 ⟨by decide, rfl, by rfl, rfl, ?_, rfl, ?_, rfl⟩
    all_goals
      rw [hmemory, hsize]
      decide
  have hoverruns : Overruns d "events" Ring.outline ⟨0, "events", (d.memory 0).size, false⟩ := by
    refine ⟨hattach, ?_, ?_⟩
    · rw [hmemory]
      exact Ring.headed_format (Nat.le_refl 384)
    · rw [hmemory, hend]
      decide
  have hanswered := (attached_iff d "events").1 default
  exact ⟨hsize, hend, Prod.ext ((hanswered.crashed_iff _).2 ⟨rfl, _, hoverruns⟩)
    hanswered.unchanged⟩

end SharedExchange
