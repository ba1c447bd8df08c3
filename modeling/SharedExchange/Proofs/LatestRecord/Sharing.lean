import Mathlib.Tactic
import SharedExchange.Proofs.LatestRecord.Making
import SharedExchange.Proofs.LatestRecord.Register

/-! # A cell that is shared

`Sharing` is a cell with everybody who uses it: any number of handles, through each of which records
are read and written, and the one write that may be under way. Every step of it answers what the
`Register` answers, and leaves a cell that presents the record of the register and handles that have
the news it has for them (`Agrees.step`). So the two answer alike in every run, also while a write
is under way, and no step changes a byte of the slot that is active when it is taken
(`run_eq_register`). -/

namespace SharedExchange

namespace LatestRecord

variable {α : Type}

/-! ## The cell with its users -/

/-- A cell in use. -/
structure Sharing where
  directory : Directory
  /-- The name of the cell. -/
  name : String
  type : RecordType
  handles : List LatestRecord
  /-- The write that is under way, and the handle it was started through. -/
  writing : Option (LatestRecord × Draft)

namespace Sharing

/-- The cell has just been made, and only its maker has a handle. -/
def fresh (c : LatestRecord) (d : Directory) : Sharing := ⟨d, c.attachment.name, c.type, [c], none⟩

/-- The contents of the object that a handle is on. -/
def contents (s : Sharing) (c : LatestRecord) : Memory := s.directory.memory c.attachment.object

/-- Replace the contents of the object that a handle is on. -/
def put (s : Sharing) (c : LatestRecord) (m : Memory) : Sharing :=
  { s with directory := s.directory.update c.attachment.object m }

/-- Keep what a handle has seen. -/
def keep (s : Sharing) (handle : Nat) (c : LatestRecord) : Sharing :=
  { s with handles := s.handles.set handle c }

/-- What is asked through a handle. -/
def via (s : Sharing) (handle : Nat) (ask : LatestRecord → Answer α × Sharing) :
    Answer α × Sharing :=
  match s.handles[handle]? with
  | some c => ask c
  | none => (.passed, s)

/-- What the cell answers, and what becomes of it. -/
def step (s : Sharing) : Operation α → Answer α × Sharing
  | .write handle record =>
    s.via handle fun c =>
      match s.writing with
      | none =>
        if record.length = c.type.size then (.done, s.put c (c.write record (s.contents c)))
        else (.passed, s)
      | some _ => (.passed, s)
  | .beginWrite handle =>
    s.via handle fun c =>
      match s.writing with
      | none =>
        let (draft, m) := c.beginWrite (s.contents c)
        (.draft (c.draftRecord draft m), { s.put c m with writing := some (c, draft) })
      | some _ => (.passed, s)
  | .edit offset bytes =>
    match s.writing with
    | some (c, draft) =>
      if offset + bytes.length ≤ c.type.size then
        let m := c.editSlot draft offset bytes (s.contents c)
        (.draft (c.draftRecord draft m), s.put c m)
      else (.passed, s)
    | none => (.passed, s)
  | .publish =>
    match s.writing with
    | some (c, draft) =>
      (.done, { s.put c (LatestRecord.publish draft (s.contents c)) with writing := none })
    | none => (.passed, s)
  | .read handle =>
    s.via handle fun c =>
      let (found, c') := c.read? (s.contents c)
      (.record found, s.keep handle c')
  | .readWith handle visit =>
    s.via handle fun c =>
      let (result, c') := c.readWith? visit (s.contents c)
      (.visited result, s.keep handle c')
  | .readUpdate handle atHand =>
    s.via handle fun c =>
      let (found, c') := c.readUpdate? atHand (s.contents c)
      (.update found, s.keep handle c')
  | .hasUpdate handle => s.via handle fun c => (.hasUpdate (c.hasUpdate (s.contents c)), s)
  | .generation handle =>
    s.via handle fun c => (.generation (LatestRecord.generation (s.contents c)).toNat, s)
  | .attach =>
    match LatestRecord.attach s.name s.type s.directory with
    | (.ok c, d) =>
      (.attached (.ok ()), { s with directory := d, handles := s.handles ++ [c] })
    | (.error failure, d) => (.attached (.error failure), { s with directory := d })

/-- The cell after operations in their order. -/
def after (s : Sharing) : List (Operation α) → Sharing
  | [] => s
  | operation :: operations => (s.step operation).2.after operations

/-- The answers to operations in their order. -/
def run (s : Sharing) : List (Operation α) → List (Answer α)
  | [] => []
  | operation :: operations => (s.step operation).1 :: (s.step operation).2.run operations

/-! ## What is kept -/

/-- A handle on the same cell as `c`. -/
structure Follows (c q : LatestRecord) : Prop where
  object_eq : q.attachment.object = c.attachment.object
  alike : q = { c with attachment := q.attachment, lastSeen := q.lastSeen }

/-! All handles on one cell write alike. -/

section

variable {c q : LatestRecord} (h : Follows c q)

include h

/-- Whoever follows works with records of the same size. -/
theorem Follows.size_eq : q.type.size = c.type.size := by rw [h.alike]

/-- A record is written in the same way. -/
theorem Follows.write_eq (record : List UInt8) (m : Memory) :
    q.write record m = c.write record m := by
  rw [h.alike]
  rfl

/-- A write is started in the same way. -/
theorem Follows.beginWrite_eq (m : Memory) : q.beginWrite m = c.beginWrite m := by
  rw [h.alike]
  rfl

/-- What is written so far is the same. -/
theorem Follows.draftRecord_eq (draft : Draft) (m : Memory) :
    q.draftRecord draft m = c.draftRecord draft m := by
  rw [h.alike]
  rfl

/-- It is edited in the same way. -/
theorem Follows.editSlot_eq (draft : Draft) (offset : Nat) (bytes : List UInt8) (m : Memory) :
    q.editSlot draft offset bytes m = c.editSlot draft offset bytes m := by
  rw [h.alike]
  rfl

end

/-- Either nobody writes, or the draft of the one who does has the bytes that he believes to have
written. -/
def Phase (off : Nat → Bool) (c : LatestRecord) (m : Memory)
    (writing : Option (LatestRecord × Draft)) (draft : Option (List UInt8)) : Prop :=
  (writing = none ∧ draft = none ∧ Resting off m) ∨
    ∃ q slot bytes, writing = some (q, slot) ∧ draft = some bytes ∧ Follows c q ∧
      Drafting off c m slot bytes

/-- The handles have the news that there are for them, and have seen no more records than there
were. -/
structure Counted (handles : List LatestRecord) (published : Nat) (news : List Bool) : Prop where
  seen_le : ∀ q ∈ handles, q.lastSeen.toNat ≤ published
  news_eq : news = handles.map fun q => decide (q.lastSeen.toNat ≠ published)

/-- The cell presents the record of the register, its handles are those that the register knows, and
its counts are right but for those that are off. The handles have the right news as long as the
number of records is one of 64 bits. -/
structure Agrees (off : Nat → Bool) (c : LatestRecord) (s : Sharing) (r : Register) : Prop where
  leads : s.directory.names[s.name]? = some (.object c.attachment.object)
  entry_eq : (s.directory.attach s.name).map (fun _ => ()) = r.entry
  type_eq : s.type = c.type
  wellFormed : c.type.WellFormed
  aligned : c.slotsStart.toNat % c.type.alignment = 0
  holds : Holds c (s.contents c) r.record r.published
  phase : Phase off c (s.contents c) s.writing r.draft
  follows : ∀ q ∈ s.handles, Follows c q
  length_eq : r.news.length = s.handles.length
  counted : r.published < UInt64.size → Counted s.handles r.published r.news

variable {c q : LatestRecord} {s : Sharing} {r : Register} {handle : Nat} {off : Nat → Bool}

/-- All handles on one cell are on the same object. -/
theorem Follows.contents_eq (hq : Follows c q) : s.contents q = s.contents c := by
  rw [contents, hq.object_eq, contents]

/-- Whatever a writer does, the count of the active slot is right unless it is off. -/
theorem Agrees.underway_active (h : Agrees off c s r) :
    underway (s.contents c) (active (s.contents c)) = off (r.published % 2) := by
  rw [← h.holds.active_eq]
  obtain ⟨-, -, hrest⟩ | ⟨q, slot, bytes, -, -, -, hdraft⟩ := h.phase
  · exact hrest _ h.holds.active_lt
  · exact hdraft.unmarked

/-- The cell has counted the records that were published. -/
theorem Agrees.generation_eq (h : Agrees off c s r) (hcount : r.published < UInt64.size) :
    (generation (s.contents c)).toNat = r.published := by
  rw [h.holds.generation_eq, UInt64.toNat_ofNat']
  exact Nat.mod_eq_of_lt hcount

/-- A handle has news if it has not seen as many records as were published. -/
theorem Agrees.hasUpdate_eq (h : Agrees off c s r) (hcount : r.published < UInt64.size)
    (q : LatestRecord) :
    q.hasUpdate (s.contents c) = decide (q.lastSeen.toNat ≠ r.published) := by
  rw [hasUpdate, ← h.generation_eq hcount, Bool.eq_iff_iff, bne_iff_ne, decide_eq_true_iff, ne_eq,
    ne_eq, UInt64.toNat_inj, eq_comm]

/-! ## One step -/

/-- Two answers are the same while the number of records is one of 64 bits; what they leave agrees,
and the bytes of the slot that was active are left as they were. -/
def Matches (off : Nat → Bool) (c : LatestRecord) (s : Sharing) (mine : Answer α × Sharing)
    (other : Answer α × Register) : Prop :=
  (other.2.published < UInt64.size → mine.1 = other.1) ∧ Agrees off c mine.2 other.2 ∧
    Spares c (s.contents c) (mine.2.contents c)

/-- An answer that changes nothing. -/
theorem Agrees.answered (h : Agrees off c s r) {mine other : Answer α}
    (hanswer : r.published < UInt64.size → mine = other) : Matches off c s (mine, s) (other, r) :=
  ⟨hanswer, h, rfl⟩

/-- What nobody can ask for is passed over by both. -/
theorem Agrees.passed (h : Agrees off c s r) : Matches (α := α) off c s (.passed, s) (.passed, r) :=
  h.answered fun _ => rfl

/-- The handles that the cell has are those that the register knows. -/
theorem Agrees.via (h : Agrees off c s r) {mine : LatestRecord → Answer α × Sharing}
    {other : Bool → Answer α × Register}
    (hmatches : ∀ q news, s.handles[handle]? = some q → Follows c q →
      (r.published < UInt64.size → news = decide (q.lastSeen.toNat ≠ r.published)) →
      Matches off c s (mine q) (other news)) :
    Matches off c s (s.via handle mine) (r.via handle other) := by
  rw [Sharing.via, Register.via]
  cases hq : s.handles[handle]? with
  | none =>
    have hnews : r.news[handle]? = none := by
      rw [List.getElem?_eq_none_iff, h.length_eq]
      exact List.getElem?_eq_none_iff.1 hq
    rw [hnews]
    exact h.passed
  | some q =>
    obtain ⟨hlt, -⟩ := List.getElem?_eq_some_iff.1 hq
    have hnews := List.getElem?_eq_getElem (h.length_eq.symm ▸ hlt)
    rw [hnews]
    refine hmatches q _ hq (h.follows q (List.mem_of_getElem? hq)) fun hcount => ?_
    have hsame := congrArg (·[handle]?) (h.counted hcount).news_eq
    simp only [hnews, List.getElem?_map, hq, Option.map_some] at hsame
    exact Option.some.inj hsame

/-! ## Steps of a writer -/

/-- What is done through a handle on the cell to its object. -/
theorem Agrees.put (h : Agrees off c s r) (hq : Follows c q) {m : Memory} {record : List UInt8}
    {published : Nat} {writing : Option (LatestRecord × Draft)} {draft : Option (List UInt8)}
    {news : List Bool} {answer : Answer α} (hsize : m.size = (s.contents c).size)
    (hholds : Holds c m record published) (hphase : Phase off c m writing draft)
    (hspares : Spares c (s.contents c) m) (hlength : news.length = s.handles.length)
    (hcounted : published < UInt64.size → Counted s.handles published news) :
    Matches off c s (answer, { s.put q m with writing := writing })
      (answer, ⟨record, published, news, draft, r.entry⟩) := by
  have hcontents : ({ s.put q m with writing := writing } : Sharing).contents c = m := by
    rw [contents, Sharing.put, hq.object_eq, Directory.memory_update_same]
  refine ⟨fun _ => rfl, ?_, by rwa [hcontents]⟩
  constructor
  case leads => exact h.leads
  case entry_eq =>
    -- the object keeps its size
    rw [← h.entry_eq]
    exact Directory.attach_map_congr rfl h.leads h.leads
      ((congrArg Memory.size hcontents).trans hsize)
  case type_eq => exact h.type_eq
  case wellFormed => exact h.wellFormed
  case aligned => exact h.aligned
  case holds => rwa [hcontents]
  case phase => rwa [hcontents]
  case follows => exact h.follows
  case length_eq => exact hlength
  case counted => exact hcounted

/-- A record that is published is news to every handle. -/
theorem Agrees.counted_publish (h : Agrees off c s r) (hcount : r.published + 1 < UInt64.size) :
    Counted s.handles (r.published + 1) (r.news.map fun _ => true) := by
  obtain ⟨hseen, hnews⟩ := h.counted (Nat.lt_of_succ_lt hcount)
  refine ⟨fun q hq => (hseen q hq).trans (Nat.le_succ _), ?_⟩
  rw [hnews, List.map_map]
  refine List.map_congr_left fun q hq => ?_
  have hle := hseen q hq
  exact (decide_eq_true (by omega)).symm

/-- A record that is published is news to as many as there are handles. -/
theorem Agrees.length_publish (h : Agrees off c s r) :
    (r.news.map fun _ => true).length = s.handles.length := by
  rw [List.length_map, h.length_eq]

/-- A record is written at once, unless a write is under way. -/
theorem Agrees.write (h : Agrees off c s r) (handle : Nat) (record : List UInt8) :
    Matches (α := α) off c s (s.step (.write handle record)) (r.step (.write handle record)) := by
  refine h.via fun q _ _ hfollows _ => ?_
  obtain ⟨hwriting, hdraft, hrest⟩ | ⟨q', slot, bytes, hwriting, hdraft, -, -⟩ := h.phase
  · rw [hwriting, hdraft]
    simp only [hfollows.size_eq, h.holds.length_eq]
    by_cases hlength : record.length = c.type.size
    · rw [if_pos hlength, if_pos hlength, hfollows.contents_eq, hfollows.write_eq]
      obtain ⟨hholds, hrest', hspares⟩ := h.holds.write hrest hlength
      exact h.put hfollows (size_write ..) hholds (.inl ⟨hwriting, rfl, hrest'⟩) hspares
        h.length_publish h.counted_publish
    · rw [if_neg hlength, if_neg hlength]
      exact h.passed
  · rw [hwriting, hdraft]
    exact h.passed

/-- A write starts with the record published last, unless one is under way. -/
theorem Agrees.beginWrite (h : Agrees off c s r) (handle : Nat) :
    Matches (α := α) off c s (s.step (.beginWrite handle)) (r.step (.beginWrite handle)) := by
  refine h.via fun q _ _ hfollows _ => ?_
  obtain ⟨hwriting, hdraft, hrest⟩ | ⟨q', slot, bytes, hwriting, hdraft, -, -⟩ := h.phase
  · obtain ⟨hholds, hdrafting, hspares⟩ := h.holds.beginWrite hrest
    rw [hwriting, hdraft]
    simp only [hfollows.contents_eq, hfollows.beginWrite_eq, hfollows.draftRecord_eq,
      hdrafting.bytes_eq]
    exact h.put hfollows (size_beginWrite ..) hholds
      (.inr ⟨q, _, _, rfl, rfl, hfollows, hdrafting⟩) hspares h.length_eq h.counted
  · rw [hwriting, hdraft]
    exact h.passed

/-- The write under way is edited in the slot that nobody reads. -/
theorem Agrees.edit (h : Agrees off c s r) (offset : Nat) (bytes : List UInt8) :
    Matches (α := α) off c s (s.step (.edit offset bytes)) (r.step (.edit offset bytes)) := by
  rw [step, Register.step]
  obtain ⟨hwriting, hdraft, -⟩ | ⟨q, slot, old, hwriting, hdraft, hfollows, hdrafting⟩ := h.phase
  · rw [hwriting, hdraft]
    exact h.passed
  · rw [hwriting, hdraft]
    simp only [hfollows.size_eq, hdrafting.length_eq]
    by_cases hinside : offset + bytes.length ≤ c.type.size
    · obtain ⟨hholds, hdrafting', hspares⟩ := h.holds.editSlot hdrafting hinside
      rw [if_pos hinside, if_pos hinside, hfollows.contents_eq, hfollows.editSlot_eq,
        hfollows.draftRecord_eq, hdrafting'.bytes_eq]
      exact h.put hfollows (size_editSlot ..) hholds
        (.inr ⟨q, _, _, hwriting, rfl, hfollows, hdrafting'⟩) hspares h.length_eq h.counted
    · rw [if_neg hinside, if_neg hinside]
      exact h.passed

/-- The write under way becomes the record. -/
theorem Agrees.publish (h : Agrees off c s r) :
    Matches (α := α) off c s (s.step .publish) (r.step .publish) := by
  rw [step, Register.step]
  obtain ⟨hwriting, hdraft, -⟩ | ⟨q, slot, bytes, hwriting, hdraft, hfollows, hdrafting⟩ := h.phase
  · rw [hwriting, hdraft]
    exact h.passed
  · obtain ⟨hholds, hrest, hspares⟩ := h.holds.publish hdrafting
    rw [hwriting, hdraft]
    simp only [hfollows.contents_eq]
    exact h.put hfollows (size_publish ..) hholds (.inl ⟨rfl, rfl, hrest⟩) hspares
      h.length_publish h.counted_publish

/-! ## Steps of a reader -/

/-- A handle that has seen nothing new is as it was. -/
theorem keep_self (hq : s.handles[handle]? = some q) : s.keep handle q = s := by
  obtain ⟨hlt, rfl⟩ := List.getElem?_eq_some_iff.1 hq
  rw [keep, List.set_getElem_self]

/-- What a reader may change: what its handle has seen, and the news for it. -/
theorem Agrees.keep (h : Agrees off c s r) (hq : s.handles[handle]? = some q) {seen : UInt64}
    {news : List Bool} (hlength : news.length = r.news.length)
    (hcounted : r.published < UInt64.size →
      Counted (s.handles.set handle { q with lastSeen := seen }) r.published news) :
    Agrees off c (s.keep handle { q with lastSeen := seen }) { r with news := news } := by
  have hfollows := h.follows q (List.mem_of_getElem? hq)
  refine { h with follows := ?_, length_eq := ?_, counted := hcounted }
  · intro a ha
    rcases List.mem_or_eq_of_mem_set ha with ha | rfl
    · exact h.follows a ha
    · refine ⟨hfollows.object_eq, ?_⟩
      rw [hfollows.alike]
  · rw [hlength, h.length_eq, Sharing.keep, List.length_set]

/-- A handle that has read the record has no news. -/
theorem Agrees.look (h : Agrees off c s r) (hq : s.handles[handle]? = some q) :
    Agrees off c (s.keep handle { q with lastSeen := generation (s.contents c) })
      (r.look handle) := by
  refine h.keep hq (List.length_set ..) fun hcount => ?_
  obtain ⟨hseen, hnews⟩ := h.counted hcount
  refine ⟨fun a ha => ?_, ?_⟩
  · rcases List.mem_or_eq_of_mem_set ha with ha | rfl
    · exact hseen a ha
    · exact Nat.le_of_eq (h.generation_eq hcount)
  · rw [List.map_set, ← hnews, h.generation_eq hcount, decide_eq_false (not_not.2 rfl)]

/-- What a handle finds when it reads, and what becomes of it. -/
theorem Agrees.read?_eq (h : Agrees off c s r) (hclear : off (r.published % 2) = false)
    (hq : s.handles[handle]? = some q) :
    q.read? (s.contents c) = (some r.record, { q with lastSeen := generation (s.contents c) }) := by
  have hfollows := h.follows q (List.mem_of_getElem? hq)
  exact (h.holds.alike hfollows.alike).read?_eq (h.underway_active.trans hclear)

/-- Only a reader that has news reads, and keeps what is at hand otherwise. -/
theorem Agrees.readUpdate (h : Agrees off c s r) (hclear : off (r.published % 2) = false)
    (handle : Nat) (atHand : List UInt8) :
    Matches (α := α) off c s (s.step (.readUpdate handle atHand))
      (r.step (.readUpdate handle atHand)) := by
  refine h.via fun q news hq hfollows hnews => ?_
  simp only [readUpdate?, hfollows.contents_eq, h.read?_eq hclear hq]
  by_cases hcount : r.published < UInt64.size
  · rw [h.hasUpdate_eq hcount, ← hnews hcount]
    cases news with
    | true => exact ⟨fun _ => rfl, h.look hq, rfl⟩
    | false =>
      simp only [Bool.false_eq_true, if_false, keep_self hq]
      exact h.answered fun _ => rfl
  · -- with so many records it does not matter who has news
    have hany : ∀ (mine other : Answer α) (seen : UInt64) (left : List Bool),
        left.length = r.news.length → Matches off c s
          (mine, s.keep handle { q with lastSeen := seen }) (other, { r with news := left }) :=
      fun _ _ _ _ hlength =>
        ⟨fun h => absurd h hcount, h.keep hq hlength fun h => absurd h hcount, rfl⟩
    cases q.hasUpdate (s.contents c) with
    | true => cases news with
      | true => exact hany _ _ _ _ (List.length_set ..)
      | false => exact hany _ _ _ r.news rfl
    | false => cases news with
      | true => exact hany _ _ q.lastSeen _ (List.length_set ..)
      | false => exact hany _ _ q.lastSeen r.news rfl

/-- A handle can be made at any time if the system lets it be. It counts what was published before
as seen. -/
theorem Agrees.attach_eq (h : Agrees off c s r) :
    (∃ fault, r.entry = .error fault ∧
      LatestRecord.attach s.name s.type s.directory = (.error (.refused fault), s.directory)) ∨
    r.entry = .ok () ∧ ∃ q,
      LatestRecord.attach s.name s.type s.directory = (.ok q, s.directory) ∧ Follows c q ∧
        q.lastSeen = generation (s.contents c) := by
  have hentry := h.entry_eq
  cases hhold : s.directory.attach s.name with
  | error fault =>
    rw [hhold] at hentry
    refine .inl ⟨fault, hentry.symm, ?_⟩
    rw [LatestRecord.attach, Directory.examine, hhold]
  | ok a =>
    rw [hhold] at hentry
    refine .inr ⟨hentry.symm, ?_⟩
    have hobject : a.object = c.attachment.object := by
      have hnamed := (Directory.attach_eq_ok_iff.1 hhold).named
      exact Entry.object.inj (Option.some.inj (hnamed.symm.trans h.leads))
    have hmemory : s.directory.memory a.object = s.contents c := by rw [hobject, contents]
    have hlaid := h.holds.laid
    -- the name leads to the cell, whose header has been in order since it was made
    have hfound : Found s.directory s.name (outline c.type) a := by
      refine ⟨hhold, ?_, ?_, ?_⟩
      all_goals rw [hmemory]
      · exact headed_of_laid hlaid h.wellFormed
      · simp only [outline, hlaid.slotsStart_eq]
        exact h.aligned
      · simp only [outline, hlaid.slotsStart_eq]
        exact hlaid.inside
    rw [h.type_eq]
    refine ⟨_, attach_eq_ok_iff.2 ⟨⟨a, hfound, rfl⟩, rfl⟩, ⟨hobject, ?_⟩, ?_⟩
    · rw [foundHandle, hmemory, hlaid.slotsStart_eq]
    · rw [foundHandle, hmemory]
      rfl

/-- Whoever asks for a handle is told the same at all times. -/
theorem Agrees.attach (h : Agrees off c s r) :
    Matches (α := α) off c s (s.step .attach) (r.step .attach) := by
  obtain ⟨fault, hentry, hattach⟩ | ⟨hentry, q, hattach, hfollows, hseen⟩ := h.attach_eq
  · rw [step, Register.step, hattach, hentry]
    exact h.answered fun _ => rfl
  have hstep : r.step (α := α) .attach =
      (.attached (.ok ()), { r with news := r.news ++ [false] }) := by
    rw [Register.step, hentry]
  rw [step, hattach, hstep]
  simp only
  refine ⟨fun _ => rfl, { h with follows := ?_, length_eq := ?_, counted := fun hcount => ?_ }, rfl⟩
  · intro a ha
    rcases List.mem_append.1 ha with ha | ha
    · exact h.follows a ha
    · exact List.mem_singleton.1 ha ▸ hfollows
  · rw [List.length_append, List.length_append, h.length_eq]
    rfl
  · obtain ⟨hseen', hnews⟩ := h.counted hcount
    have hlast : q.lastSeen.toNat = r.published := by rw [hseen, h.generation_eq hcount]
    refine ⟨fun a ha => ?_, ?_⟩
    · rcases List.mem_append.1 ha with ha | ha
      · exact hseen' a ha
      · exact Nat.le_of_eq (List.mem_singleton.1 ha ▸ hlast)
    · simp only [List.map_append, List.map_cons, List.map_nil, ← hnews, hlast, ne_eq, not_true,
        decide_false]

/-- Whatever is asked of the cell, it answers like the register, unless the count that a reader
looks at is off. -/
theorem Agrees.answer (h : Agrees off c s r) (operation : Operation α)
    (hclear : operation.reads = true → off (r.published % 2) = false) :
    Matches off c s (s.step operation) (r.step operation) := by
  cases operation with
  | write handle record => exact h.write handle record
  | beginWrite handle => exact h.beginWrite handle
  | edit offset bytes => exact h.edit offset bytes
  | publish => exact h.publish
  | read handle =>
    refine h.via fun q _ hq hfollows _ => ?_
    simp only [hfollows.contents_eq, h.read?_eq (hclear rfl) hq]
    exact ⟨fun _ => rfl, h.look hq, rfl⟩
  | readWith handle visit =>
    refine h.via fun q _ hq hfollows _ => ?_
    simp only [readWith?, hfollows.contents_eq, h.read?_eq (hclear rfl) hq]
    exact ⟨fun _ => rfl, h.look hq, rfl⟩
  | readUpdate handle atHand => exact h.readUpdate (hclear rfl) handle atHand
  | hasUpdate handle =>
    refine h.via fun q _ _ hfollows hnews => h.answered fun hcount => ?_
    rw [hfollows.contents_eq, h.hasUpdate_eq hcount, hnews hcount]
  | generation handle =>
    refine h.via fun q _ _ hfollows _ => h.answered fun hcount => ?_
    rw [hfollows.contents_eq, h.generation_eq hcount]
  | attach => exact h.attach

/-! ## The whole life of a cell -/

/-- While no count is off, whatever is asked is answered like the register answers it. -/
theorem Agrees.step (h : Agrees (fun _ => false) c s r) (operation : Operation α)
    (hcount : (r.step operation).2.published < UInt64.size) :
    (s.step operation).1 = (r.step operation).1 ∧
      Agrees (fun _ => false) c (s.step operation).2 (r.step operation).2 ∧
      Spares c (s.contents c) ((s.step operation).2.contents c) := by
  obtain ⟨hanswer, hnext⟩ := h.answer operation fun _ => rfl
  exact ⟨hanswer hcount, hnext⟩

/-- What holds of one operation holds of all, in whatever order they come. -/
theorem Agrees.run (h : Agrees (fun _ => false) c s r) (operations : List (Operation α))
    (hcount : (r.after operations).published < UInt64.size) :
    s.run operations = r.run operations ∧
      Agrees (fun _ => false) c (s.after operations) (r.after operations) := by
  induction operations generalizing s r with
  | nil => exact ⟨rfl, h⟩
  | cons operation operations ih =>
    -- the step lemma for the first operation, the induction hypothesis for the others
    rw [Register.after] at hcount
    have hstep := ((r.step operation).2.published_le_after operations).trans_lt hcount
    obtain ⟨hanswer, hnext, -⟩ := h.step operation hstep
    obtain ⟨hanswers, hlast⟩ := ih hnext hcount
    refine ⟨?_, hlast⟩
    rw [Sharing.run, Register.run, hanswer, hanswers]

/-- A made cell presents its first record, and its maker has no news. -/
theorem agrees_fresh {name : String} {type : RecordType} {first : List UInt8} {d d' : Directory}
    {c : LatestRecord} (h : create name type first d = (.ok c, d')) (htype : type.WellFormed)
    (hfirst : first.length = type.size) :
    Agrees (fun _ => false) c (fresh c d')
      (Register.fresh first ((d'.attach name).map fun _ => ())) := by
  obtain ⟨-, hc, hd⟩ := create_eq_ok_iff.1 h
  obtain ⟨-, hsmall, haligned⟩ := freshSlotsStart_spec htype
  have htypes : c.type = type := by rw [hc]
  obtain rfl := htypes
  have hname : c.attachment.name = name := by rw [hc]
  have hstart : c.slotsStart = UInt64.ofNat (freshSlotsStart c.type) := by rw [hc]
  have hlast : c.lastSeen = 0 := by rw [hc]
  have hobject : c.attachment.object = d.nextObject := by rw [hc]
  -- both slots are even at first, and the first record is in the active one
  obtain ⟨hholds, hrest⟩ := holds_format htype hfirst hstart
  have hmade : (fresh c d').contents c =
      format c.type first (Memory.zeros (wholeSize c.type)) := by
    rw [contents, fresh, hobject, hd, Directory.memory_establish]
  rw [← hmade] at hholds hrest
  constructor
  case leads =>
    rw [fresh, hname, hobject, hd]
    exact Directory.getElem?_names_establish ..
  case entry_eq => rw [fresh, hname, Register.fresh]
  case type_eq => rfl
  case wellFormed => exact htype
  case aligned =>
    have hplace : c.slotsStart.toNat = freshSlotsStart c.type := by
      rw [hstart, UInt64.toNat_ofNat']
      exact Nat.mod_eq_of_lt (by omega)
    rw [hplace]
    exact haligned
  case holds => exact hholds
  case phase => exact .inl ⟨rfl, rfl, hrest⟩
  case follows =>
    intro q hq
    rw [List.mem_singleton.1 hq]
    exact ⟨rfl, rfl⟩
  case length_eq => rfl
  case counted =>
    refine fun _ => ⟨fun q hq => ?_, ?_⟩
    · rw [List.mem_singleton.1 hq, hlast]
      exact Nat.le_refl _
    · simp only [Register.fresh, fresh, List.map_cons, List.map_nil, hlast]
      rfl

/-- Whoever looks for a cell that was just made finds it, if the system is willing. -/
theorem entry_of_create {name : String} {type : RecordType} {first : List UInt8}
    {d d' : Directory} {c : LatestRecord} (h : create name type first d = (.ok c, d'))
    (hwilling : d.Willing name) : (d'.attach name).map (fun _ => ()) = .ok () := by
  obtain ⟨hgrants, -, rfl⟩ := create_eq_ok_iff.1 h
  rw [hgrants.attach_establish (by rw [size_format, Memory.size_zeros]) hwilling]
  rfl

/-- Whatever is asked of a cell, through whichever handles and in whatever order, it answers like
the register; and no step changes a byte of the slot that is active when it is taken. Whoever asks
for a handle is told the same at all times, and gets one if the system is willing. -/
theorem run_eq_register {name : String} {type : RecordType} {first : List UInt8} {d d' : Directory}
    {c : LatestRecord} (h : create name type first d = (.ok c, d')) (htype : type.WellFormed)
    (hfirst : first.length = type.size) :
    ∃ entry, (d.Willing name → entry = .ok ()) ∧ ∀ operations : List (Operation α),
      ((Register.fresh first entry).after operations).published < UInt64.size →
        (fresh c d').run operations = (Register.fresh first entry).run operations ∧
        ∀ earlier operation later, operations = earlier ++ operation :: later →
          Spares c (((fresh c d').after earlier).contents c)
            ((((fresh c d').after earlier).step operation).2.contents c) := by
  have hfresh := agrees_fresh h htype hfirst
  refine ⟨_, entry_of_create h, fun operations hcount => ⟨(hfresh.run operations hcount).1, ?_⟩⟩
  rintro earlier operation later rfl
  rw [Register.after_append, Register.after] at hcount
  have hstep := (Register.published_le_after _ later).trans_lt hcount
  have hearlier := (Register.published_le_step _ operation).trans_lt hstep
  exact ((hfresh.run earlier hearlier).2.step operation hstep).2.2

/-- A peer reads the record published last while a write is under way and half done, and has news of
it when it is published. -/
theorem run_eq_register_two : ∃ c d',
    create "state" ⟨4, 2⟩ [1, 2, 3, 4] Directory.empty = (.ok c, d') ∧
      (fresh c d').run [.attach, .hasUpdate 1, .beginWrite 0, .edit 1 [7, 8], .read 1,
          .write 1 [0, 0, 0, 0], .publish, .hasUpdate 1, .readUpdate 1 [9, 9, 9, 9],
          .readUpdate 1 [9, 9, 9, 9], .write 1 [5, 5, 5, 5], .readWith 0 List.head?, .hasUpdate 0,
          .hasUpdate 1, .generation 0] =
        [.attached (.ok ()), .hasUpdate false, .draft [1, 2, 3, 4], .draft [1, 7, 8, 4],
          .record (some [1, 2, 3, 4]), .passed, .done, .hasUpdate true,
          .update (some (true, [1, 7, 8, 4])), .update (some (false, [9, 9, 9, 9])), .done,
          .visited (some (some 5)), .hasUpdate false, .hasUpdate true, .generation 2] := by
  obtain ⟨c, d', hcreate⟩ : ∃ c d',
      create "state" ⟨4, 2⟩ [1, 2, 3, 4] Directory.empty = (.ok c, d') :=
    ⟨_, _, create_eq_ok_iff.2
      ⟨Directory.grants_empty (by decide) (by decide) (by decide), rfl, rfl⟩⟩
  refine ⟨c, d', hcreate, ?_⟩
  have htype : RecordType.WellFormed ⟨4, 2⟩ := ⟨⟨1, rfl⟩, by decide, by decide⟩
  obtain ⟨entry, hentry, hrun⟩ := run_eq_register hcreate htype rfl
  obtain rfl := hentry (Directory.willing_empty _)
  rw [(hrun _ (by decide)).1]
  rfl

end Sharing

end LatestRecord
end SharedExchange
