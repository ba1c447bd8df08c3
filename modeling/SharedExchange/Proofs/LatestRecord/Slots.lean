import Mathlib.Tactic
import SharedExchange.LatestRecord

/-! # The two slots of a cell

`Holds` says which record a cell presents: the active slot has its bytes, and the generation counts
the records that were published after the first. The records use the two slots in turn. `Holds` says
nothing of the other slot, where a writer may be at work. `Resting` and `Drafting` do: while nobody
writes the sequence counts of both slots say so, and a draft turns over what is said of its slot,
which is never the active one.

A write takes its slot's count forward twice, so a count that was right before it is right after it.
One that was *off* stays off, and what the counts say can only be told from which of them are off:
`off` is a parameter of all that follows.

A step of a writer touches bytes of the slot that is not active, its sequence count, and at the end
the active slot's number and the generation. So the record that is presented stays until the draft
takes its place (`Holds.beginWrite`, `Holds.editSlot`, `Holds.publish`), and a reader that looks at
a slot whose count is not off finds the record at any time (`Holds.read?_eq`). -/

namespace SharedExchange

namespace Memory

/-- Bytes stored inside a slice replace as many of it. -/
theorem slice_store_inside (m : Memory) {start count offset : Nat} {bytes : List UInt8}
    (h : offset + bytes.length ≤ count) :
    (m.store (start + offset) bytes).slice start count =
      (m.slice start count).take offset ++ bytes ++
        (m.slice start count).drop (offset + bytes.length) := by
  refine List.ext_getElem (by simp; omega) fun i hi _ => ?_
  rw [getElem_slice, get_store]
  by_cases hfront : i < offset
  · rw [dif_neg (by omega), List.getElem_append_left (by simp; omega),
      List.getElem_append_left (by simp; omega), List.getElem_take, getElem_slice]
  · by_cases hinside : i < offset + bytes.length
    · rw [dif_pos (by omega), List.getElem_append_left (by simp; omega),
        List.getElem_append_right (by simp; omega)]
      congr 1
      simp
      omega
    · rw [dif_neg (by omega), List.getElem_append_right (by simp; omega), List.getElem_drop,
        getElem_slice]
      congr 1
      simp
      omega

end Memory

namespace LatestRecord

variable {c q : LatestRecord} {m m' : Memory} {record bytes : List UInt8} {draft : Draft}
  {published slot other : Nat} {off : Nat → Bool}

/-! ## Where things stand -/

/-- The other one of two slots is one of the two. -/
theorem other_lt (h : slot < 2) : slot ^^^ 1 < 2 := by
  interval_cases slot <;> decide

/-- The other slot is another one. -/
theorem other_ne (h : slot < 2) : slot ^^^ 1 ≠ slot := by
  interval_cases slot <;> decide

/-- The other slot of the other slot is the slot itself. -/
theorem other_other (slot : Nat) : slot ^^^ 1 ^^^ 1 = slot := by
  rw [Nat.xor_assoc, Nat.xor_self, Nat.xor_zero]

/-- Of two slots the one that is not this is the other. -/
theorem eq_other (h : slot < 2) (h' : other < 2) (hne : other ≠ slot) : other = slot ^^^ 1 := by
  interval_cases slot <;> interval_cases other <;> first | rfl | exact absurd rfl hne

/-- The numbers of the slots in turn. -/
theorem mod_two_succ (n : Nat) : (n + 1) % 2 = n % 2 ^^^ 1 := by
  rcases Nat.mod_two_eq_zero_or_one n with h | h
  · rw [h, Nat.succ_mod_two_eq_one_iff.2 h]
    rfl
  · rw [h, Nat.succ_mod_two_eq_zero_iff.2 h]
    rfl

/-- The two slots do not overlap. -/
theorem slotAt_apart (h : slot < 2) (h' : other < 2) (hne : other ≠ slot) :
    c.slotAt other + c.type.size ≤ c.slotAt slot ∨
      c.slotAt slot + c.type.size ≤ c.slotAt other := by
  rw [slotAt, slotAt]
  interval_cases slot <;> interval_cases other <;> omega

/-- The size of the object and everything that a cell's header says of its layout. -/
structure Laid (c : LatestRecord) (m : Memory) : Prop where
  magic_eq : m.load32 0 = signature.magic
  version_eq : m.load32 4 = Signature.version
  recordSize_eq : m.load64 recordSizeAt = UInt64.ofNat c.type.size
  alignment_eq : m.load64 alignmentAt = UInt64.ofNat c.type.alignment
  slotsStart_eq : m.load64 slotsStartAt = c.slotsStart
  header_le : signature.headerSize ≤ c.slotsStart.toNat
  inside : c.slotsStart.toNat + 2 * c.type.size ≤ m.size

/-- The layout is told by the bytes in front of the number of the active slot. -/
theorem Laid.congr (h : Laid c m) (hsize : m'.size = m.size)
    (hget : ∀ i < activeAt, m'.get i = m.get i) : Laid c m' := by
  rw [activeAt] at hget
  constructor
  case magic_eq => rw [Memory.load32_congr fun i _ hi => hget i (by omega), h.magic_eq]
  case version_eq => rw [Memory.load32_congr fun i _ hi => hget i (by omega), h.version_eq]
  case recordSize_eq =>
    rw [Memory.load64_congr fun i _ hi => hget i (by rw [recordSizeAt] at hi; omega),
      h.recordSize_eq]
  case alignment_eq =>
    rw [Memory.load64_congr fun i _ hi => hget i (by rw [alignmentAt] at hi; omega),
      h.alignment_eq]
  case slotsStart_eq =>
    rw [Memory.load64_congr fun i _ hi => hget i (by rw [slotsStartAt] at hi; omega),
      h.slotsStart_eq]
  case header_le => exact h.header_le
  case inside => exact hsize ▸ h.inside

/-- The slots are behind the header. -/
theorem Laid.le_slotAt (h : Laid c m) (slot : Nat) : 640 ≤ c.slotAt slot :=
  h.header_le.trans (Nat.le_add_right ..)

/-! ## What the steps of a writer touch -/

/-- Starting a write touches the sequence count and the bytes of the slot that is not active. -/
theorem get_beginWrite {i : Nat}
    (hsequence : i < sequenceAt (active m ^^^ 1) ∨ sequenceAt (active m ^^^ 1) + 8 ≤ i)
    (hslot : i < c.slotAt (active m ^^^ 1) ∨ c.slotAt (active m ^^^ 1) + c.type.size ≤ i) :
    (c.beginWrite m).2.get i = m.get i := by
  rw [beginWrite]
  simp only
  rw [Memory.get_store_of_disjoint _ (by rwa [Memory.length_slice]), Memory.modify64,
    Memory.get_store64_of_disjoint _ _ hsequence]

/-- Beginning to write keeps the size. -/
@[simp] theorem size_beginWrite (c : LatestRecord) (m : Memory) :
    (c.beginWrite m).2.size = m.size := by
  simp only [beginWrite, Memory.modify64, Memory.size_store, Memory.size_store64]

/-- Beginning to write raises the count of the other slot by one. -/
theorem sequence_beginWrite (h : Laid c m) (hactive : active m < 2) :
    (c.beginWrite m).2.load64 (sequenceAt (active m ^^^ 1)) =
      m.load64 (sequenceAt (active m ^^^ 1)) + 1 := by
  have hslot := h.le_slotAt (active m ^^^ 1)
  have hlt := other_lt hactive
  rw [beginWrite]
  simp only
  rw [Memory.load64_store_of_disjoint _ (.inl (by rw [sequenceAt]; omega)), Memory.modify64,
    Memory.load64_store64_same]

/-- A write starts with a copy of the record in the active slot. -/
theorem draftRecord_beginWrite (h : Laid c m) (hactive : active m < 2) :
    c.draftRecord (c.beginWrite m).1 (c.beginWrite m).2 =
      m.slice (c.slotAt (active m)) c.type.size := by
  have hslot := h.le_slotAt (active m)
  have hlt := other_lt hactive
  rw [draftRecord, beginWrite]
  simp only
  have hcopy := Memory.slice_store_same (m.modify64 (sequenceAt (active m ^^^ 1)) (· + 1))
    (c.slotAt (active m ^^^ 1))
    ((m.modify64 (sequenceAt (active m ^^^ 1)) (· + 1)).slice (c.slotAt (active m)) c.type.size)
  rw [Memory.length_slice] at hcopy
  rw [hcopy]
  refine Memory.slice_congr fun i hi _ => ?_
  rw [Memory.modify64, Memory.get_store64_of_disjoint _ _ (.inr (by rw [sequenceAt]; omega))]

/-- Publishing touches the sequence count of the draft's slot, the number of the active slot and the
generation. -/
theorem get_publish {i : Nat}
    (hsequence : i < sequenceAt draft.slot ∨ sequenceAt draft.slot + 8 ≤ i)
    (hactive : i < activeAt ∨ activeAt + 4 ≤ i)
    (hgeneration : i < generationAt ∨ generationAt + 8 ≤ i) :
    (publish draft m).get i = m.get i := by
  rw [publish]
  simp only [Memory.modify64]
  rw [Memory.get_store64_of_disjoint _ _ hgeneration, Memory.get_store32_of_disjoint _ _ hactive,
    Memory.get_store64_of_disjoint _ _ hsequence]

/-- Publishing keeps the size. -/
@[simp] theorem size_publish (draft : Draft) (m : Memory) : (publish draft m).size = m.size := by
  simp only [publish, Memory.modify64, Memory.size_store64, Memory.size_store32]

/-- Publishing raises the count of the slot once more. -/
theorem sequence_publish (hslot : draft.slot < 2) :
    (publish draft m).load64 (sequenceAt draft.slot) = m.load64 (sequenceAt draft.slot) + 1 := by
  rw [publish]
  simp only [Memory.modify64]
  rw [Memory.load64_store64_of_disjoint _ _ (.inr (by rw [sequenceAt, generationAt]; omega)),
    Memory.load64_store32_of_disjoint _ _ (.inr (by rw [sequenceAt, activeAt]; omega)),
    Memory.load64_store64_same]

/-- The slot that was published is active. -/
theorem active_publish (hslot : draft.slot < 2) : active (publish draft m) = draft.slot := by
  rw [active, publish]
  simp only [Memory.modify64]
  rw [Memory.load32_store64_of_disjoint _ _ (.inl (by decide)), Memory.load32_store32_same,
    UInt32.toNat_ofNat']
  exact Nat.mod_eq_of_lt (by omega)

/-- Publishing raises the generation by one. -/
theorem generation_publish (hslot : draft.slot < 2) :
    generation (publish draft m) = generation m + 1 := by
  rw [generation, publish, Memory.modify64, Memory.load64_store64_same]
  simp only [Memory.modify64]
  rw [Memory.load64_store32_of_disjoint _ _ (.inr (by decide)),
    Memory.load64_store64_of_disjoint _ _ (.inl (by rw [sequenceAt, generationAt]; omega)),
    generation]

/-- Editing a slot keeps the size. -/
@[simp] theorem size_editSlot (c : LatestRecord) (draft : Draft) (offset : Nat)
    (bytes : List UInt8) (m : Memory) : (c.editSlot draft offset bytes m).size = m.size :=
  Memory.size_store ..

/-- Writing a record keeps the size. -/
@[simp] theorem size_write (c : LatestRecord) (record : List UInt8) (m : Memory) :
    (c.write record m).size = m.size := by
  simp only [write, size_publish, size_editSlot, size_beginWrite]

/-! ## The record that a cell presents -/

/-- A cell presents a record and has published so many. -/
structure Holds (c : LatestRecord) (m : Memory) (record : List UInt8) (published : Nat) : Prop where
  laid : Laid c m
  active_eq : active m = published % 2
  record_eq : m.slice (c.slotAt (active m)) c.type.size = record
  generation_eq : generation m = UInt64.ofNat published

/-- Whether a slot's count says that the slot is under construction. -/
def underway (m : Memory) (slot : Nat) : Bool := m.load64 (sequenceAt slot) % 2 == 1

/-- Nobody writes: the counts say so, but for those that are off. -/
def Resting (off : Nat → Bool) (m : Memory) : Prop := ∀ slot < 2, underway m slot = off slot

/-- Somebody writes into the slot that is not active, and the count of that slot says the opposite
of what it says while nobody writes. The slot has the bytes of the draft. -/
structure Drafting (off : Nat → Bool) (c : LatestRecord) (m : Memory) (draft : Draft)
    (bytes : List UInt8) : Prop where
  slot_eq : draft.slot = active m ^^^ 1
  marked : underway m draft.slot = !off draft.slot
  unmarked : underway m (active m) = off (active m)
  bytes_eq : c.draftRecord draft m = bytes

/-- The bytes of the slot that was active are left as they are. -/
def Spares (c : LatestRecord) (m m' : Memory) : Prop :=
  m'.slice (c.slotAt (active m)) c.type.size = m.slice (c.slotAt (active m)) c.type.size

/-- A slot is under way when its count is odd, as a number. -/
theorem underway_eq_decide (m : Memory) (slot : Nat) :
    underway m slot = decide ((m.load64 (sequenceAt slot)).toNat % 2 = 1) := by
  rw [underway, Bool.eq_iff_iff, beq_iff_eq, decide_eq_true_iff, ← UInt64.toNat_inj]
  rfl

/-- A slot is complete when its count is even. -/
theorem underway_eq_false_iff : underway m slot = false ↔ m.load64 (sequenceAt slot) % 2 = 0 := by
  have htwo : (2 : UInt64).toNat = 2 := by decide
  rw [underway_eq_decide, decide_eq_false_iff_not, ← UInt64.toNat_inj, UInt64.toNat_mod, htwo]
  exact Nat.mod_two_ne_one

/-- A count that goes forward by one says the opposite. -/
theorem underway_succ (h : m'.load64 (sequenceAt slot) = m.load64 (sequenceAt slot) + 1) :
    underway m' slot = !underway m slot := by
  have hone : (1 : UInt64).toNat = 1 := by decide
  rw [underway_eq_decide, underway_eq_decide, h, UInt64.toNat_add, hone, ← decide_not,
    decide_eq_decide]
  omega

/-- Whether a slot is under way depends on its count only. -/
theorem underway_congr (h : m'.load64 (sequenceAt slot) = m.load64 (sequenceAt slot)) :
    underway m' slot = underway m slot := by
  rw [underway, h, underway]

/-- The active slot is one of the two. -/
theorem Holds.active_lt (h : Holds c m record published) : active m < 2 := by
  rw [h.active_eq]
  exact Nat.mod_lt _ (by decide)

/-- The record has the size of its type. -/
theorem Holds.length_eq (h : Holds c m record published) : record.length = c.type.size := by
  rw [← h.record_eq, Memory.length_slice]

/-- A draft has the size of its type. -/
theorem Drafting.length_eq (h : Drafting off c m draft bytes) : bytes.length = c.type.size := by
  rw [← h.bytes_eq, draftRecord, Memory.length_slice]

/-- A draft is in one of the two slots. -/
theorem Drafting.slot_lt (h : Drafting off c m draft bytes) (hactive : active m < 2) :
    draft.slot < 2 := by
  rw [h.slot_eq]
  exact other_lt hactive

/-- The slot that is not drafted in is active. -/
theorem Drafting.active_eq (h : Drafting off c m draft bytes) : active m = draft.slot ^^^ 1 := by
  rw [h.slot_eq, other_other]

/-- What twice spares the active slot spares it, if it stays active. -/
theorem Spares.trans {m'' : Memory} (h : Spares c m m') (hactive : active m' = active m)
    (h' : Spares c m' m'') : Spares c m m'' := by
  rw [Spares, hactive] at h'
  exact Eq.trans h' h

/-- All handles on one cell find the same in it. -/
theorem Holds.alike (h : Holds c m record published)
    (hq : q = { c with attachment := q.attachment, lastSeen := q.lastSeen }) :
    Holds q m record published := by
  rw [hq]
  exact ⟨⟨h.laid.1, h.laid.2, h.laid.3, h.laid.4, h.laid.5, h.laid.6, h.laid.7⟩, h.active_eq,
    h.record_eq, h.generation_eq⟩

/-- Which slot is active depends on the header only. -/
theorem active_congr (hheader : ∀ i < sequenceAt 0, m'.get i = m.get i) : active m' = active m := by
  have hwords : activeAt + 4 ≤ sequenceAt 0 := by decide
  rw [active, Memory.load32_congr fun i _ hi => hheader i (by omega), active]

/-- Whatever leaves the front of the header and the active slot as they are keeps what the cell
presents. -/
theorem Holds.congr (h : Holds c m record published) (hsize : m'.size = m.size)
    (hheader : ∀ i < sequenceAt 0, m'.get i = m.get i) (hspares : Spares c m m') :
    Holds c m' record published := by
  have hwords : activeAt ≤ sequenceAt 0 ∧ generationAt + 8 ≤ sequenceAt 0 := by decide
  have hactive := active_congr hheader
  refine ⟨h.laid.congr hsize fun i hi => hheader i (by omega), ?_, ?_, ?_⟩
  · rw [hactive, h.active_eq]
  · rw [hactive, hspares, h.record_eq]
  · rw [generation, Memory.load64_congr fun i _ hi => hheader i (by omega)]
    exact h.generation_eq

/-! ## Writing -/

/-- Starting a write keeps the record and gives the writer a copy of it. -/
theorem Holds.beginWrite (h : Holds c m record published) (hrest : Resting off m) :
    Holds c (c.beginWrite m).2 record published ∧
      Drafting off c (c.beginWrite m).2 (c.beginWrite m).1 record ∧
      Spares c m (c.beginWrite m).2 := by
  have hlt := h.active_lt
  have hother := other_lt hlt
  have hslot := h.laid.le_slotAt (active m ^^^ 1)
  have hapart := slotAt_apart (c := c) hlt hother (other_ne hlt)
  have hheader : ∀ i < sequenceAt 0, (c.beginWrite m).2.get i = m.get i := by
    intro i hi
    rw [sequenceAt] at hi
    exact get_beginWrite (.inl (by rw [sequenceAt]; omega)) (.inl (by omega))
  have hspares : Spares c m (c.beginWrite m).2 := by
    have hactive := h.laid.le_slotAt (active m)
    exact Memory.slice_congr fun i hlow hhigh =>
      get_beginWrite (.inr (by rw [sequenceAt]; omega)) (by omega)
  refine ⟨h.congr (size_beginWrite c m) hheader hspares, ?_, hspares⟩
  constructor
  case slot_eq => rw [active_congr hheader, LatestRecord.beginWrite]
  case marked =>
    exact (underway_succ (sequence_beginWrite h.laid hlt)).trans (congrArg _ (hrest _ hother))
  case unmarked =>
    -- the count of the active slot is another word than the one that was changed
    have hne := other_ne hlt
    rw [active_congr hheader, underway_congr (Memory.load64_congr fun i hlow hhigh =>
      get_beginWrite (by rw [sequenceAt] at hlow hhigh ⊢; omega)
        (.inl (by rw [sequenceAt] at hhigh; omega)))]
    exact hrest _ hlt
  case bytes_eq => rw [draftRecord_beginWrite h.laid hlt, h.record_eq]

/-- A writer changes the draft and nothing that is presented. -/
theorem Holds.editSlot (h : Holds c m record published) (hdraft : Drafting off c m draft bytes)
    {offset : Nat} {new : List UInt8} (hinside : offset + new.length ≤ c.type.size) :
    Holds c (c.editSlot draft offset new m) record published ∧
      Drafting off c (c.editSlot draft offset new m) draft
        (bytes.take offset ++ new ++ bytes.drop (offset + new.length)) ∧
      Spares c m (c.editSlot draft offset new m) := by
  have hlt := h.active_lt
  have hslot := h.laid.le_slotAt draft.slot
  have hapart := slotAt_apart (c := c) hlt (hdraft.slot_lt hlt)
    (hdraft.slot_eq ▸ other_ne hlt)
  have hget : ∀ i < 640, (c.editSlot draft offset new m).get i = m.get i := fun i hi =>
    Memory.get_store_of_disjoint _ (.inl (by omega))
  have hheader : ∀ i < sequenceAt 0, (c.editSlot draft offset new m).get i = m.get i :=
    fun i hi => hget i (by rw [sequenceAt] at hi; omega)
  have hsequence : ∀ slot < 2, underway (c.editSlot draft offset new m) slot = underway m slot :=
    fun slot hlt => underway_congr (Memory.load64_congr fun i _ hi =>
      hget i (by rw [sequenceAt] at hi; omega))
  have hspares : Spares c m (c.editSlot draft offset new m) :=
    Memory.slice_store_of_disjoint _ (by omega)
  refine ⟨h.congr (Memory.size_store ..) hheader hspares, ?_, hspares⟩
  constructor
  case slot_eq => rw [active_congr hheader, hdraft.slot_eq]
  case marked => rw [hsequence _ (hdraft.slot_lt hlt), hdraft.marked]
  case unmarked => rw [active_congr hheader, hsequence _ hlt, hdraft.unmarked]
  case bytes_eq =>
    have hslice : m.slice (c.slotAt draft.slot) c.type.size = bytes := hdraft.bytes_eq
    rw [draftRecord, LatestRecord.editSlot, Memory.slice_store_inside _ hinside, hslice]

/-- The draft becomes the record. -/
theorem Holds.publish (h : Holds c m record published) (hdraft : Drafting off c m draft bytes) :
    Holds c (publish draft m) bytes (published + 1) ∧ Resting off (publish draft m) ∧
      Spares c m (publish draft m) := by
  have hlt := h.active_lt
  have hdraftLt := hdraft.slot_lt hlt
  -- only the header is touched
  have hslots : ∀ slot, (LatestRecord.publish draft m).slice (c.slotAt slot) c.type.size =
      m.slice (c.slotAt slot) c.type.size := by
    intro slot
    have hslot := h.laid.le_slotAt slot
    refine Memory.slice_congr fun i hlow _ => get_publish (.inr ?_) (.inr ?_) (.inr ?_)
    · rw [sequenceAt]
      omega
    · rw [activeAt]
      omega
    · rw [generationAt]
      omega
  refine ⟨⟨?_, ?_, ?_, ?_⟩, ?_, hslots _⟩
  · refine h.laid.congr (size_publish draft m) fun i hi => ?_
    rw [activeAt] at hi
    exact get_publish (.inl (by rw [sequenceAt]; omega)) (.inl (by rw [activeAt]; omega))
      (.inl (by rw [generationAt]; omega))
  · rw [active_publish hdraftLt, hdraft.slot_eq, h.active_eq, mod_two_succ]
  · rw [active_publish hdraftLt, hslots]
    exact hdraft.bytes_eq
  · rw [generation_publish hdraftLt, h.generation_eq, UInt64.ofNat_add]
    rfl
  · intro slot hslot
    by_cases hsame : slot = draft.slot
    · -- the draft's count was turned over twice
      rw [hsame, underway_succ (sequence_publish hdraftLt), hdraft.marked, Bool.not_not]
    · -- the count of the slot that was active is left alone
      have hactive : slot = active m := by
        rw [hdraft.slot_eq] at hsame
        by_contra hne
        exact hsame (eq_other hlt hslot hne)
      rw [underway_congr (Memory.load64_congr fun i hlow hhigh => get_publish
        (by rw [sequenceAt] at hlow hhigh ⊢; omega)
        (.inr (by rw [sequenceAt] at hlow; rw [activeAt]; omega))
        (.inr (by rw [sequenceAt] at hlow; rw [generationAt]; omega))), hactive]
      exact hdraft.unmarked

/-- A record that is published at once replaces the one before. -/
theorem Holds.write (h : Holds c m record published) (hrest : Resting off m) {new : List UInt8}
    (hlength : new.length = c.type.size) :
    Holds c (c.write new m) new (published + 1) ∧ Resting off (c.write new m) ∧
      Spares c m (c.write new m) := by
  obtain ⟨hbegun, hdraft, hspares⟩ := h.beginWrite hrest
  have hfits : 0 + new.length ≤ c.type.size := by omega
  obtain ⟨hedited, hdraft', hspares'⟩ := hbegun.editSlot hdraft hfits
  obtain ⟨hpublished, hrest', hspares''⟩ := hedited.publish hdraft'
  -- all of the copy is replaced
  have hnew : record.take 0 ++ new ++ record.drop (0 + new.length) = new := by
    rw [List.drop_of_length_le (by rw [h.length_eq]; omega), List.take_zero, List.nil_append,
      List.append_nil]
  have hactive : active (c.beginWrite m).2 = active m := by
    rw [hdraft.active_eq, LatestRecord.beginWrite, other_other]
  have hactive' : active (c.editSlot (c.beginWrite m).1 0 new (c.beginWrite m).2) = active m := by
    rw [hdraft'.active_eq, ← hdraft.active_eq, hactive]
  rw [hnew] at hpublished
  exact ⟨hpublished, hrest', hspares.trans hactive (hspares'.trans (hactive'.trans hactive.symm)
    hspares'')⟩

/-! ## Reading -/

/-- A reader finds the record, and has then seen all that was published. -/
theorem Holds.read?_eq (h : Holds c m record published) (hclear : underway m (active m) = false) :
    c.read? m = (some record, { c with lastSeen := generation m }) := by
  rw [underway, beq_eq_false_iff_ne] at hclear
  rw [read?]
  simp only [hclear, h.record_eq, if_false]

/-- A reader that looks at a slot under construction finds nothing. -/
theorem read?_of_underway (hmarked : underway m (active m) = true) : c.read? m = (none, c) := by
  rw [underway, beq_iff_eq] at hmarked
  rw [read?]
  exact if_pos hmarked

end LatestRecord
end SharedExchange
