import Mathlib.Tactic
import SharedExchange.Proofs.Making
import SharedExchange.Proofs.Arena.Measured

/-! # The life of a region

A `Life` is a region with its name, everybody who holds it, and what the attempts to publish in it
were answered. `Life.Next` is what may happen: somebody opens the region, tries to publish, or lets
go of it. The stage of a region is a function of two things that only the history knows, whether
its maker still holds it and whether an attempt succeeded (`Life.stage`); `Life.Kept` ties the words
of the header to it, `Kept.next` carries that over every step, and `Life.orderly_of_made` reads off
what everybody can rely on: a value is announced once, before that nothing of it is seen, and after
that nothing but the stage changes. -/

namespace SharedExchange

namespace Region

open Arena (BuildMode)

variable {r q : Region} {v : Value} {mode : BuildMode} {m m' : Memory}

/-! ## What publishing leaves alone -/

/-- Whoever did not make a region publishes nothing in it. -/
theorem publish_of_peer (h : r.attachment.owner = false) (v : Value) (mode : BuildMode)
    (m : Memory) : r.publish v mode m = (.error .regionAlreadyBuilt, m) := by
  rw [publish, if_pos (by rw [h]; rfl)]

/-- The size of the object, the signature in front of the stage, and the place of the arena. -/
structure SameFrame (m m' : Memory) : Prop where
  size_eq : m'.size = m.size
  front : ∀ i < stateAt, m'.get i = m.get i
  place : ∀ i, arenaStartAt ≤ i → i < usedAt → m'.get i = m.get i

/-- The frame is the same if nothing changes. -/
theorem SameFrame.refl (m : Memory) : SameFrame m m := ⟨rfl, fun _ _ => rfl, fun _ _ _ => rfl⟩

/-- What twice leaves the frame alone leaves it alone. -/
theorem SameFrame.trans {m'' : Memory} (h : SameFrame m m') (h' : SameFrame m' m'') :
    SameFrame m m'' where
  size_eq := h'.size_eq.trans h.size_eq
  front i hi := (h'.front i hi).trans (h.front i hi)
  place i hi hi' := (h'.place i hi hi').trans (h.place i hi hi')

/-- The stage and the mode stand between the signature and the place of the arena. -/
theorem SameFrame.store32 (h : SameFrame m m') {position : Nat} (hlow : stateAt ≤ position)
    (hhigh : position + 4 ≤ arenaStartAt) (word : UInt32) :
    SameFrame m (m'.store32 position word) where
  size_eq := (Memory.size_store32 ..).trans h.size_eq
  front i hi := by
    rw [Memory.get_store32_of_disjoint _ _ (.inl (hi.trans_le hlow))]
    exact h.front i hi
  place i hi hi' := by
    rw [Memory.get_store32_of_disjoint _ _ (.inr (hhigh.trans hi))]
    exact h.place i hi hi'

/-- What the header tells of a value stands behind the place of the arena. -/
theorem SameFrame.store64 (h : SameFrame m m') {position : Nat} (hlow : usedAt ≤ position)
    (word : UInt64) : SameFrame m (m'.store64 position word) where
  size_eq := (Memory.size_store64 ..).trans h.size_eq
  front i hi := by
    rw [Memory.get_store64_of_disjoint _ _ (.inl (hi.trans_le (le_trans (by decide) hlow)))]
    exact h.front i hi
  place i hi hi' := by
    rw [Memory.get_store64_of_disjoint _ _ (.inl (hi'.trans_le hlow))]
    exact h.place i hi hi'

/-- Entering a stage leaves the frame alone. -/
theorem SameFrame.enter (h : SameFrame m m') (stage : RegionState) :
    SameFrame m (enter stage m') :=
  h.store32 (by decide) (by decide) _

/-- Building keeps the size of the object. -/
theorem size_build (r : Region) (v : Value) (mode : BuildMode) (m : Memory) :
    (r.build v mode m).2.memory.size = m.size := by
  have hput : (Arena.Writer.put (r.site mode) v ⟨m, 0, 0, ∅⟩).2.memory.size = m.size :=
    (Arena.put_spent (r.site mode) v ⟨m, 0, 0, ∅⟩).size_eq
  rw [build]
  simp only
  split
  · rfl
  · rw [← site]
    split
    · next hfailed => rwa [hfailed] at hput
    · next hdone =>
      rw [hdone] at hput
      split <;> exact hput

/-- Building leaves the frame alone. -/
theorem sameFrame_build (hstart : r.arenaStart = freshArenaStart) (v : Value) (mode : BuildMode)
    (m : Memory) : SameFrame m (r.build v mode m).2.memory := by
  have hfront : ∀ i < usedAt, i < r.arenaStart.toNat := fun i hi => by
    rw [hstart]
    exact hi.trans (by decide)
  exact ⟨size_build r v mode m, fun i hi => get_build r v mode m (hfront i (hi.trans (by decide))),
    fun i _ hi => get_build r v mode m (hfront i hi)⟩

/-- Publishing leaves the frame alone. -/
theorem sameFrame_publish (hstart : r.arenaStart = freshArenaStart) (v : Value) (mode : BuildMode)
    (m : Memory) : SameFrame m (r.publish v mode m).2 := by
  have hbuild := ((SameFrame.refl m).enter .building).trans (sameFrame_build hstart v mode _)
  rw [publish]
  split
  · exact .refl m
  · split
    · next hfailed =>
      rw [hfailed] at hbuild
      exact hbuild.enter _
    · next hdone =>
      rw [hdone] at hbuild
      have hmode := @SameFrame.store32 _ _ hbuild modeAt (by decide) (by decide) (modeCode mode)
      exact (((hmode.store64 (by decide) _).store64 (by decide) _).store64 (by decide) _).enter _

/-- What the header tells of a value. -/
structure Announcement where
  used : UInt64
  root : UInt64
  nodeCount : UInt64
  mode : BuildMode
deriving DecidableEq

/-- What a header tells of a value. -/
def announcement (m : Memory) : Announcement :=
  ⟨used m, m.load64 rootAt, nodeCount m, Region.mode m⟩

/-- What a header tells of a value stands behind the stage. -/
theorem announcement_congr
    (h : ∀ i, modeAt ≤ i → i < signature.headerSize → m'.get i = m.get i) :
    announcement m' = announcement m := by
  have hword : ∀ position, modeAt ≤ position → position + 8 ≤ signature.headerSize →
      m'.load64 position = m.load64 position := fun position hfrom hto =>
    Memory.load64_congr fun i hi hi' => h i (hfrom.trans hi) (hi'.trans_le hto)
  have hmode : m'.load32 modeAt = m.load32 modeAt :=
    Memory.load32_congr fun i hi hi' => h i hi (hi'.trans (by decide))
  rw [announcement, used, nodeCount, Region.mode, hword _ (by decide) (by decide),
    hword _ (by decide) (by decide), hword _ (by decide) (by decide), hmode]
  rfl

/-! ## Opening in vain -/

/-- A region that is not ready is not attached to. -/
theorem attach_of_not_ready {name : String} {d : Directory} {a : Attachment} {stage : RegionState}
    (hfound : d.attach name = .ok a) (hopens : signature.Opens (d.memory a.object))
    (hstate : (d.memory a.object).load32 stateAt = stage.code)
    (hstage : stage.code ≠ RegionState.ready.code) :
    attach name d = (.error (.refused (.regionNotReady stage.code.toNat)), d) := by
  refine Directory.examine_of_unread hfound ?_
  rw [ofHeader, (Signature.check_eq_ok_iff (u := ())).2 hopens]
  show (if (d.memory a.object).load32 stateAt ≠ _ then throw _ >>= _ else _) = _
  rw [hstate, if_pos hstage]
  rfl

/-! ## A fresh header -/

/-- The header of a fresh region is written inside the object. -/
@[simp] theorem size_format (capacity : UInt64) (m : Memory) :
    (format capacity m).size = m.size := by
  simp only [format, Signature.write, Memory.size_store64, Memory.size_store32]

/-- The signature of a fresh region is not written over. -/
theorem get_format_front (capacity : UInt64) (m : Memory) {i : Nat} (hi : i < stateAt) :
    (format capacity m).get i = (signature.write m).get i := by
  have hfar : ∀ position, stateAt ≤ position → i < position ∨ position + 8 ≤ i :=
    fun position hle => .inl (hi.trans_le hle)
  rw [format, Memory.get_store64_of_disjoint _ _ (hfar _ (by decide)),
    Memory.get_store64_of_disjoint _ _ (hfar _ (by decide)),
    Memory.get_store64_of_disjoint _ _ (hfar _ (by decide)),
    Memory.get_store64_of_disjoint _ _ (hfar _ (by decide)),
    Memory.get_store32_of_disjoint _ _ (.inl (hi.trans (by decide))),
    Memory.get_store32_of_disjoint _ _ (.inl hi)]

/-! ## Lives -/

/-- A region over its life. -/
structure Life where
  directory : Directory
  object : ObjectId
  /-- The name under which the region was made. -/
  name : String
  handles : List Region
  /-- What the attempts to publish were answered, one after the other. -/
  answers : List (Except Fault Unit)

namespace Life

/-- The contents of the object. -/
def memory (x : Life) : Memory := x.directory.memory x.object

/-- A region that was just made. -/
def fresh (r : Region) (d : Directory) : Life :=
  ⟨d, r.attachment.object, r.attachment.name, [r], []⟩

/-- Whether the maker of the region still holds it. -/
def owned (x : Life) : Bool := x.handles.any (·.attachment.owner)

/-- Whether an attempt to publish succeeded. -/
def published (x : Life) : Bool := x.answers.any (·.isOk)

/-- The stage in which the region is, by its history. -/
def stage (x : Life) : RegionState :=
  if x.owned then if x.published then .ready else .empty else .tornDown

/-- One thing that happens in the life of a region. Reading is not among them, as it changes
nothing. -/
inductive Next : Life → Life → Prop
  /-- Something happens in the directory, but neither to the object nor, while the maker holds the
  region, to its name. -/
  | elsewhere {x : Life} (d : Directory) (hmemory : d.memory x.object = x.memory)
    (hname : x.owned → d.names[x.name]? = x.directory.names[x.name]?) :
    Next x { x with directory := d }
  /-- Somebody opens the region. -/
  | attach {x : Life} {name : String} {q : Region} {d : Directory}
    (h : Region.attach name x.directory = (.ok q, d))
    (hobject : q.attachment.object = x.object) :
    Next x { x with directory := d, handles := q :: x.handles }
  /-- Somebody publishes a value, or fails to. -/
  | publish {x : Life} {q : Region} (hq : q ∈ x.handles) (v : Value) (mode : BuildMode)
    {answer : Except Fault Unit} {d : Directory}
    (h : x.directory.run x.object (q.publish v mode) = (answer, d)) :
    Next x { x with directory := d, answers := x.answers ++ [answer] }
  /-- Somebody lets go of the region. -/
  | drop {x : Life} {front back : List Region} {q : Region}
    (h : x.handles = front ++ q :: back) :
    Next x { x with directory := q.release x.directory, handles := front ++ back }

/-- What a region starts with: a name, an object that can be held and has room for a header, and a
signature in it. -/
structure Started (name : String) (made : Memory) : Prop where
  name_ok : Directory.checkName name = .ok ()
  header_le : signature.headerSize ≤ made.size
  size_le : made.size ≤ Directory.mappingLimit
  magic_eq : made.load32 0 = signature.magic
  version_eq : made.load32 4 = Signature.version

/-- What holds at any time in the life of a region that started with the contents `made`. -/
structure Kept (made : Memory) (x : Life) : Prop where
  started : Started x.name made
  agree : ∀ q ∈ x.handles, q.attachment.object = x.object ∧ q.arenaStart = freshArenaStart
  /-- No more than one party made the region. -/
  makers : x.handles.countP (·.attachment.owner) ≤ 1
  named : x.owned → x.directory.names[x.name]? = some (.object x.object)
  arenaStart_eq : made.load64 arenaStartAt = freshArenaStart
  frame : SameFrame made x.memory
  /-- Nothing is announced until a value is published. -/
  behind : x.published = false → ∀ i, modeAt ≤ i → i < signature.headerSize →
    x.memory.get i = made.get i
  state_eq : x.memory.load32 stateAt = x.stage.code
  once : x.answers.countP (·.isOk) ≤ 1

variable {made : Memory} {x x' : Life}

/-- No two stages have the same word. -/
theorem code_inj {s t : RegionState} (h : s.code = t.code) : s = t := by
  rw [← RegionState.ofCode_code s, h, RegionState.ofCode_code]

/-- A region is empty as long as its maker holds it and nothing was published. -/
theorem stage_eq_empty_iff : x.stage = .empty ↔ x.owned = true ∧ x.published = false := by
  rw [stage]
  cases x.owned <;> cases x.published <;> decide

/-- A region is torn down when its maker does not hold it any more. -/
theorem stage_eq_tornDown_iff : x.stage = .tornDown ↔ x.owned = false := by
  rw [stage]
  cases x.owned <;> cases x.published <;> decide

/-- A maker's handle is one by which the maker holds the region. -/
theorem owned_of_mem (hq : q ∈ x.handles) (howner : q.attachment.owner = true) : x.owned = true :=
  List.any_eq_true.2 ⟨q, hq, howner⟩

/-- One step or the other of an attempt to publish: it is refused and changes nothing, or the maker
of the region makes it while the region is empty. -/
theorem Kept.publish_cases (h : x.Kept made) (q : Region) (v : Value) (mode : BuildMode) :
    q.publish v mode x.memory = (.error .regionAlreadyBuilt, x.memory) ∨
      q.attachment.owner = true ∧ x.stage = .empty := by
  by_cases hmaker : q.attachment.owner = true ∧ x.stage = .empty
  · exact .inr hmaker
  · left
    rcases not_and_or.1 hmaker with howner | hstage
    · exact publish_of_peer (Bool.not_eq_true _ ▸ howner) v mode _
    · refine publish_of_not_empty q v mode fun hempty => hstage ?_
      rw [h.state_eq] at hempty
      exact code_inj hempty

/-! ## What every step keeps -/

/-- A value is published if it was before, or is by the last attempt. -/
theorem published_concat (answers : List (Except Fault Unit)) (answer : Except Fault Unit) :
    (answers ++ [answer]).any (·.isOk) = (answers.any (·.isOk) || answer.isOk) := by
  rw [List.any_append, List.any_cons, List.any_nil, Bool.or_false]

/-- Who comes and goes besides its maker makes no difference to a region, nor does what happens
elsewhere. -/
theorem Kept.of_same (h : x.Kept made) {d : Directory} {handles : List Region}
    (hmemory : d.memory x.object = x.memory)
    (howned : handles.any (·.attachment.owner) = x.owned)
    (hagree : ∀ q ∈ handles, q.attachment.object = x.object ∧ q.arenaStart = freshArenaStart)
    (hmakers : handles.countP (·.attachment.owner) ≤ 1)
    (hnamed : x.owned → d.names[x.name]? = some (.object x.object)) :
    Kept made { x with directory := d, handles := handles } := by
  let y : Life := { x with directory := d, handles := handles }
  have hstage : y.stage = x.stage := by
    rw [stage, show y.owned = x.owned from howned]
    rfl
  have hsame : y.memory = x.memory := hmemory
  refine ⟨h.started, hagree, hmakers, fun hstill => hnamed (howned ▸ hstill), h.arenaStart_eq,
    hsame ▸ h.frame, hsame ▸ h.behind, ?_, h.once⟩
  rw [hstage]
  exact hsame ▸ h.state_eq

/-- Who opens a region is one more peer. -/
theorem Kept.attach (h : x.Kept made) {name : String} {q : Region} {d : Directory}
    (hq : Region.attach name x.directory = (.ok q, d)) (hobject : q.attachment.object = x.object) :
    Kept made { x with directory := d, handles := q :: x.handles } := by
  have hpeer : q.attachment.owner = false := by
    obtain ⟨⟨a, hfound, rfl⟩, -⟩ := attach_eq_ok_iff.1 hq
    exact hfound.owner_eq
  obtain ⟨hstart, -⟩ := eq_of_attach hq
  obtain rfl : d = x.directory := (attach_eq_ok_iff.1 hq).2
  refine h.of_same rfl ?_ ?_ ?_ h.named
  · rw [List.any_cons, hpeer, Bool.false_or, owned]
  · intro a ha
    rcases List.mem_cons.1 ha with rfl | ha
    · refine ⟨hobject, hstart.trans ?_⟩
      rw [hobject, ← h.arenaStart_eq]
      exact Memory.load64_congr fun i hi hi' => h.frame.place i hi (hi'.trans (by decide))
    · exact h.agree a ha
  · rw [List.countP_cons_of_neg (by rw [hpeer]; decide)]
    exact h.makers

/-- What an attempt to publish has to leave behind. -/
theorem Kept.of_answer (h : x.Kept made) {answer : Except Fault Unit} {d : Directory}
    (hnames : d.names = x.directory.names) (hframe : SameFrame x.memory (d.memory x.object))
    (hbehind : answer.isOk = false → ∀ i, modeAt ≤ i → i < signature.headerSize →
      (d.memory x.object).get i = x.memory.get i)
    (hstate : (d.memory x.object).load32 stateAt =
      ({ x with directory := d, answers := x.answers ++ [answer] } : Life).stage.code)
    (honce : answer.isOk = true → x.published = false) :
    Kept made { x with directory := d, answers := x.answers ++ [answer] } := by
  refine ⟨h.started, h.agree, h.makers, fun howned => ?_, h.arenaStart_eq, h.frame.trans hframe,
    fun hnot i hfrom hto => ?_, hstate, ?_⟩
  · show d.names[x.name]? = some (.object x.object)
    rw [hnames]
    exact h.named howned
  · obtain ⟨hnot, hfailed⟩ := Bool.or_eq_false_iff.1 ((published_concat ..).symm.trans hnot)
    exact (hbehind hfailed i hfrom hto).trans (h.behind hnot i hfrom hto)
  · show (x.answers ++ [answer]).countP (·.isOk) ≤ 1
    rw [List.countP_append, List.countP_singleton]
    split
    · next hok =>
      -- it is the first one that succeeds
      have hzero : x.answers.countP (·.isOk) = 0 :=
        List.countP_eq_zero.2 (List.any_eq_false.1 (honce hok))
      omega
    · exact h.once

/-- An attempt to publish succeeds or fails without a trace in the header. -/
theorem Kept.publish (h : x.Kept made) (hq : q ∈ x.handles) (v : Value) (mode : BuildMode)
    {answer : Except Fault Unit} {d : Directory}
    (hrun : x.directory.run x.object (q.publish v mode) = (answer, d)) :
    Kept made { x with directory := d, answers := x.answers ++ [answer] } := by
  obtain ⟨hanswer, hd⟩ := Prod.mk.inj hrun
  have hmemory : d.memory x.object = (q.publish v mode x.memory).2 := by
    rw [← hd, Directory.memory_update_same]
    rfl
  have hpublish : q.publish v mode x.memory = (answer, d.memory x.object) :=
    Prod.ext hanswer hmemory.symm
  have hnames : d.names = x.directory.names := by rw [← hd, Directory.names_update]
  obtain ⟨-, hstart⟩ := h.agree q hq
  have hframe : SameFrame x.memory (d.memory x.object) := by
    rw [hmemory]
    exact sameFrame_publish hstart v mode x.memory
  let y : Life := { x with directory := d, answers := x.answers ++ [answer] }
  have hpublished : y.published = (x.published || answer.isOk) := published_concat ..
  cases answer with
  | error fault =>
    have hstage : y.stage = x.stage := by
      have hsame : y.published = x.published := hpublished.trans (Bool.or_false _)
      rw [stage, hsame]
      rfl
    refine h.of_answer hnames hframe (fun _ i hfrom hto => ?_) ?_ fun hok => by cases hok
    · refine get_of_publish_error ?_ hpublish hfrom hto
      rw [hstart]
      decide
    · exact (load32_of_publish_error hpublish).trans (hstage ▸ h.state_eq)
  | ok =>
    -- only the maker of an empty region is answered so
    rcases h.publish_cases q v mode with hrefused | ⟨-, hempty⟩
    · rw [hrefused] at hpublish
      cases (Prod.mk.inj hpublish).1
    · obtain ⟨howned, hnot⟩ := stage_eq_empty_iff.1 hempty
      have hready : y.stage = .ready := by
        rw [stage, hpublished, hnot]
        exact if_pos howned
      obtain ⟨-, root, w, -, hannounced⟩ := announced_of_publish hpublish
      refine h.of_answer hnames hframe (fun hfailed => by cases hfailed) ?_ fun _ => hnot
      exact (congrArg RegionState.code hready).symm ▸ hannounced.state_eq

/-- Of those who hold a region, all but one go on holding it. -/
theorem Kept.remaining (h : x.Kept made) {front back : List Region}
    (hhandles : x.handles = front ++ q :: back) :
    (∀ a ∈ front ++ back, a.attachment.object = x.object ∧ a.arenaStart = freshArenaStart) ∧
      (front ++ back).countP (·.attachment.owner) + (if q.attachment.owner then 1 else 0) ≤ 1 := by
  have hmakers := h.makers
  rw [hhandles, List.countP_append, List.countP_cons] at hmakers
  refine ⟨fun a ha => h.agree a ?_, ?_⟩
  · rw [hhandles]
    exact ((List.sublist_cons_self q back).append_left front).subset ha
  · rw [List.countP_append]
    omega

/-- A peer lets go of a region without a trace. -/
theorem Kept.drop_peer (h : x.Kept made) {front back : List Region}
    (hhandles : x.handles = front ++ q :: back) (howner : q.attachment.owner = false) :
    Kept made { x with directory := q.release x.directory, handles := front ++ back } := by
  obtain ⟨hagree, hmakers⟩ := h.remaining hhandles
  have hsame : q.release x.directory = x.directory := by
    simp only [release, Directory.release, howner, Bool.false_eq_true, if_false]
  rw [hsame]
  refine h.of_same rfl ?_ hagree (Nat.le_of_add_right_le hmakers) h.named
  rw [owned, hhandles, List.any_append, List.any_append, List.any_cons, howner, Bool.false_or]

/-- The maker of a region tears it down when he lets go of it. -/
theorem Kept.drop_maker (h : x.Kept made) {front back : List Region}
    (hhandles : x.handles = front ++ q :: back) (howner : q.attachment.owner = true) :
    Kept made { x with directory := q.release x.directory, handles := front ++ back } := by
  let y : Life := { x with directory := q.release x.directory, handles := front ++ back }
  obtain ⟨hagree, hmakers⟩ := h.remaining hhandles
  have hq : q ∈ x.handles := by
    rw [hhandles]
    exact List.mem_append_right _ List.mem_cons_self
  rw [howner, if_pos rfl] at hmakers
  -- there was no other maker, so there is none any more
  have hnone : y.owned = false :=
    List.any_eq_false.2 (List.countP_eq_zero.1 (Nat.le_zero.1 (Nat.le_of_succ_le_succ hmakers)))
  have hmemory : y.memory = enter .tornDown x.memory := by
    show (q.release x.directory).memory x.object = _
    rw [release, howner]
    simp only [if_true]
    rw [Directory.memory_release, (h.agree q hq).1, Directory.memory_update_same]
    rfl
  refine ⟨h.started, hagree, Nat.le_of_add_right_le hmakers, ?_, h.arenaStart_eq, ?_, ?_, ?_,
    h.once⟩
  · intro hstill
    rw [show y.owned = false from hnone] at hstill
    cases hstill
  · exact hmemory ▸ h.frame.enter _
  · intro hnot i hfrom hto
    refine (congrArg (·.get i) hmemory).trans ((get_enter _ _ (.inr hfrom)).trans ?_)
    exact h.behind hnot i hfrom hto
  · rw [stage_eq_tornDown_iff.2 hnone]
    exact (congrArg (·.load32 stateAt) hmemory).trans (load32_enter ..)

/-- One thing that happens keeps the life of a region in order. -/
theorem Kept.next (h : x.Kept made) (hnext : Next x x') : x'.Kept made := by
  cases hnext with
  | elsewhere d hmemory hname =>
    exact h.of_same hmemory rfl h.agree h.makers fun howned => (hname howned).trans (h.named howned)
  | attach hq hobject => exact h.attach hq hobject
  | publish hq v mode hrun => exact h.publish hq v mode hrun
  | @drop front back q hhandles =>
    cases howner : q.attachment.owner with
    | false => exact h.drop_peer hhandles howner
    | true => exact h.drop_maker hhandles howner

/-- Whatever happens keeps the life of a region in order. -/
theorem Kept.run (h : x.Kept made) (hrun : Relation.ReflTransGen Next x x') : x'.Kept made := by
  induction hrun with
  | refl => exact h
  | tail _ hnext ih => exact ih.next hnext

/-- The life of a region starts in order. -/
theorem kept_fresh {name : String} {size : UInt64} {d d' : Directory}
    (h : create name size d = (.ok r, d')) :
    (fresh r d').Kept (d'.memory r.attachment.object) := by
  obtain ⟨-, hgrants, hr, hd⟩ := create_eq_ok_iff.1 h
  obtain ⟨hstart, hstate, harena, -⟩ := eq_of_create h
  have hobject : r.attachment.object = d.nextObject := by rw [hr]
  have hname : r.attachment.name = name := by rw [hr]
  have howner : r.attachment.owner = true := by rw [hr]
  have hmade : d'.memory r.attachment.object =
      format (freshCapacity size) (Memory.zeros (wholeSize size)) := by
    rw [hobject, hd, Directory.memory_establish]
  have hsize : (d'.memory r.attachment.object).size = wholeSize size := by
    rw [hmade, size_format, Memory.size_zeros]
  have hroom : signature.headerSize ≤ wholeSize size := Nat.le_add_right_of_le (by decide)
  -- what is written behind the signature leaves it alone
  have hopens : signature.Opens (d'.memory r.attachment.object) :=
    Signature.opens_of_front (hsize ▸ hroom) fun i hi =>
      hmade ▸ get_format_front (freshCapacity size) (Memory.zeros (wholeSize size)) hi
  have hchecked : Directory.checkName r.attachment.name = .ok () := by
    rw [hname]
    exact hgrants.name_ok
  refine ⟨⟨hchecked, hsize ▸ hroom, hsize ▸ hgrants.size_le, hopens.magic_eq,
      hopens.version_eq⟩, ?_, ?_,
    fun _ => ?_, harena, .refl _, fun _ _ _ _ => rfl, ?_, Nat.zero_le _⟩
  · intro q hq
    rw [List.mem_singleton.1 hq]
    exact ⟨rfl, hstart⟩
  · exact List.countP_le_length
  · show d'.names[r.attachment.name]? = some (.object r.attachment.object)
    rw [hname, hobject, hd, Directory.getElem?_names_establish]
  · have hstage : (fresh r d').stage = .empty :=
      stage_eq_empty_iff.2 ⟨owned_of_mem (List.mem_singleton_self r) howner, rfl⟩
    rw [hstage]
    exact hstate

/-- While its maker holds a region, its object is found under its name, if the system has nothing
against it. -/
theorem Kept.found (h : x.Kept made) (howned : x.owned = true)
    (hwilling : x.directory.Willing x.name) :
    x.directory.attach x.name = .ok ⟨x.object, x.name, x.memory.size, false⟩ := by
  have hsize : x.memory.size = made.size := h.frame.size_eq
  have hroom := h.started.header_le
  refine Directory.attach_eq_ok_iff.2 ⟨h.started.name_ok, hwilling _, h.named howned, hwilling _,
    ?_, hwilling _, ?_, rfl⟩
  · show x.memory.size ≠ 0
    rw [hsize]
    exact (Nat.lt_of_lt_of_le (by decide) hroom).ne'
  · show x.memory.size ≤ _
    rw [hsize]
    exact h.started.size_le

/-- The signature stays. -/
theorem Kept.opens (h : x.Kept made) : signature.Opens x.memory := by
  have hword : ∀ position, position + 4 ≤ stateAt →
      x.memory.load32 position = made.load32 position := fun position hle =>
    Memory.load32_congr fun i _ hi => h.frame.front i (hi.trans_le hle)
  exact ⟨h.frame.size_eq ▸ h.started.header_le, (hword 0 (by decide)).trans h.started.magic_eq,
    (hword 4 (by decide)).trans h.started.version_eq⟩

/-! ## Before a value is published -/

/-- As long as the maker of an empty region holds it: the header tells of no value, the region
cannot be opened under its name, nothing can be read, and an attempt to publish that fails leaves
all that as it is. -/
structure Waiting (made : Memory) (x : Life) : Prop where
  announcement_eq : announcement x.memory = announcement made
  /-- Nobody gets a handle under the name of the region. -/
  attach_ne : ∀ q d, Region.attach x.name x.directory ≠ (.ok q, d)
  /-- And whoever tries is told why, if the system lets him come so far. -/
  attach_eq : x.directory.Willing x.name → Region.attach x.name x.directory =
    (.error (.refused (.regionNotReady 0)), x.directory)
  root_eq : ∀ q ∈ x.handles, q.root x.memory = .error (.regionNotReady 0)
  toValue_eq : ∀ q ∈ x.handles, ∀ node, q.toValue node x.memory = .error (.regionNotReady 0)
  failed : ∀ q ∈ x.handles, ∀ v mode fault m', q.publish v mode x.memory = (.error fault, m') →
    m'.load32 stateAt = RegionState.empty.code ∧ announcement m' = announcement x.memory

/-- A region that is empty waits for a value. -/
theorem Kept.waiting (h : x.Kept made) (hstage : x.stage = .empty) : x.Waiting made := by
  obtain ⟨howned, hnot⟩ := stage_eq_empty_iff.1 hstage
  have hstate := h.state_eq
  rw [hstage] at hstate
  have harena : ∀ q : Region, q.arena x.memory = .error (.regionNotReady 0) := by
    intro q
    rw [arena, hstate]
    rfl
  refine ⟨announcement_congr (h.behind hnot), ?_, fun hwilling => ?_, ?_, ?_, ?_⟩
  · intro q d hattach
    obtain ⟨⟨a, hfound, -⟩, -⟩ := attach_eq_ok_iff.1 hattach
    -- the name leads to this very object, which is not ready
    have hnamed := (Directory.attach_eq_ok_iff.1 hfound.attach_eq).named
    obtain hobject := Entry.object.inj (Option.some.inj (hnamed.symm.trans (h.named howned)))
    have hready := hfound.headed.ready
    rw [hobject] at hready
    cases code_inj (hstate.symm.trans hready)
  · exact attach_of_not_ready (h.found howned hwilling) h.opens hstate (by decide)
  · intro q _
    rw [root, harena]
    rfl
  · intro q _ node
    rw [toValue, harena]
    rfl
  · intro q hq v mode fault m' hfailed
    refine ⟨(load32_of_publish_error hfailed).trans hstate,
      announcement_congr fun i hfrom hto => ?_⟩
    refine get_of_publish_error ?_ hfailed hfrom hto
    rw [(h.agree q hq).2]
    decide

/-! ## After a value was published -/

/-- What became of a region in which a value had been published: no byte of its object changed but
those of the stage, every further attempt to publish was refused, and so are those to come. -/
structure Settled (x x' : Life) : Prop where
  get_eq : ∀ i, i < stateAt ∨ modeAt ≤ i → x'.memory.get i = x.memory.get i
  announcement_eq : announcement x'.memory = announcement x.memory
  answers_eq : ∃ count, x'.answers = x.answers ++ List.replicate count (.error .regionAlreadyBuilt)
  refused : ∀ (q : Region) (v : Value) (mode : BuildMode),
    q.publish v mode x'.memory = (.error .regionAlreadyBuilt, x'.memory)
  /-- The region is ready until its maker lets go of it. -/
  stage_eq : x'.stage = if x'.owned then .ready else .tornDown

/-- A region with a value in it is ready or torn down. -/
theorem stage_of_published (h : x.published = true) :
    x.stage = if x.owned then .ready else .tornDown := by
  rw [stage, h]
  rfl

/-- Nothing is published a second time. -/
theorem Kept.refused (h : x.Kept made) (hpublished : x.published = true) (q : Region) (v : Value)
    (mode : BuildMode) :
    q.publish v mode x.memory = (.error .regionAlreadyBuilt, x.memory) := by
  refine (h.publish_cases q v mode).resolve_right fun hmaker => ?_
  rw [(stage_eq_empty_iff.1 hmaker.2).2] at hpublished
  cases hpublished

/-- What is published stays so. -/
theorem published_next (hnext : Next x x') (h : x.published = true) : x'.published = true := by
  cases hnext with
  | publish =>
    exact (published_concat ..).trans (by rw [show x.answers.any (·.isOk) = true from h]; rfl)
  | _ => exact h

/-- Whoever lets go of a region does not get it back. -/
theorem owned_next (hnext : Next x x') (h : x.owned = false) : x'.owned = false := by
  have hall := List.any_eq_false.1 h
  cases hnext with
  | attach hq =>
    obtain ⟨⟨a, hfound, rfl⟩, -⟩ := attach_eq_ok_iff.1 hq
    rw [owned, List.any_cons]
    show (a.owner || x.owned) = false
    rw [hfound.owner_eq, h]
    rfl
  | @drop front back left hhandles =>
    refine List.any_eq_false.2 fun q hq => hall q ?_
    rw [hhandles]
    exact ((List.sublist_cons_self left back).append_left front).subset hq
  | _ => exact h

/-- After a value was published, a step changes the stage at most. -/
theorem Kept.get_next (h : x.Kept made) (hpublished : x.published = true) (hnext : Next x x') :
    (∀ i, i < stateAt ∨ modeAt ≤ i → x'.memory.get i = x.memory.get i) ∧
      ∃ count, x'.answers = x.answers ++ List.replicate count (.error .regionAlreadyBuilt) := by
  have hsame : ∃ count, x.answers = x.answers ++
      List.replicate count (.error .regionAlreadyBuilt) := ⟨0, (List.append_nil _).symm⟩
  cases hnext with
  | elsewhere d hmemory =>
    exact ⟨fun i _ => congrArg (·.get i) hmemory, hsame⟩
  | attach hq =>
    obtain rfl := (attach_eq_ok_iff.1 hq).2
    exact ⟨fun _ _ => rfl, hsame⟩
  | @publish q hq v mode answer d hrun =>
    obtain ⟨hanswer, hd⟩ := Prod.mk.inj hrun
    -- whoever publishes again is refused, and changes nothing
    have hrefused := h.refused hpublished q v mode
    have hmemory : d.memory x.object = x.memory := by
      rw [← hd, Directory.memory_update_same]
      exact congrArg Prod.snd hrefused
    refine ⟨fun i _ => congrArg (·.get i) hmemory, 1, ?_⟩
    rw [← hanswer]
    exact congrArg (x.answers ++ [·]) (congrArg Prod.fst hrefused)
  | @drop front back q hhandles =>
    refine ⟨fun i hi => ?_, hsame⟩
    have hq : q ∈ x.handles := by
      rw [hhandles]
      exact List.mem_append_right _ List.mem_cons_self
    show ((q.release x.directory).memory x.object).get i = _
    rw [release, Directory.memory_release, (h.agree q hq).1]
    split
    · rw [Directory.memory_update_same]
      exact get_enter _ _ hi
    · rfl

/-- Once a value is published, nothing but the stage ever changes. -/
theorem Kept.settled (h : x.Kept made) (hpublished : x.published = true)
    (hrun : Relation.ReflTransGen Next x x') : x'.published = true ∧ x.Settled x' := by
  have hcarried : x'.published = true ∧
      (∀ i, i < stateAt ∨ modeAt ≤ i → x'.memory.get i = x.memory.get i) ∧
        ∃ count, x'.answers = x.answers ++ List.replicate count (.error .regionAlreadyBuilt) := by
    induction hrun with
    | refl => exact ⟨hpublished, fun _ _ => rfl, 0, (List.append_nil _).symm⟩
    | tail hbefore hnext ih =>
      obtain ⟨hdone, hget, count, hanswers⟩ := ih
      obtain ⟨hget', count', hanswers'⟩ := (h.run hbefore).get_next hdone hnext
      refine ⟨published_next hnext hdone, fun i hi => (hget' i hi).trans (hget i hi),
        count + count', ?_⟩
      rw [hanswers', hanswers, List.append_assoc, List.replicate_append_replicate]
  obtain ⟨hdone, hget, hanswers⟩ := hcarried
  exact ⟨hdone, hget, announcement_congr fun i hi _ => hget i (.inr hi), hanswers,
    (h.run hrun).refused hdone, stage_of_published hdone⟩

/-! ## The whole life -/

/-- What can be relied on at any time in the life of a region that started with the contents
`made`. -/
structure Orderly (made : Memory) (x : Life) : Prop where
  /-- No more than one attempt to publish succeeded. -/
  once : x.answers.countP (·.isOk) ≤ 1
  /-- The header tells the stage in which the region is by its history. -/
  state_eq : x.memory.load32 stateAt = x.stage.code
  waiting : x.stage = .empty → x.Waiting made
  settled : x.published = true → ∀ x', Relation.ReflTransGen Next x x' → x.Settled x'
  /-- A region that was torn down stays so. -/
  tornDown : x.stage = .tornDown → ∀ x', Relation.ReflTransGen Next x x' → x'.stage = .tornDown

/-- Whatever happens to a region, with however many handles, failures and attempts in both modes,
its life is an orderly one. -/
theorem orderly_of_made {name : String} {size : UInt64} {d d' : Directory}
    (h : create name size d = (.ok r, d')) (hrun : Relation.ReflTransGen Next (fresh r d') x) :
    x.Orderly (d'.memory r.attachment.object) := by
  have hkept := (kept_fresh h).run hrun
  refine ⟨hkept.once, hkept.state_eq, hkept.waiting,
    fun hpublished x' hrun' => (hkept.settled hpublished hrun').2, fun hstage x' hrun' => ?_⟩
  rw [stage_eq_tornDown_iff] at hstage ⊢
  induction hrun' with
  | refl => exact hstage
  | tail _ hnext ih => exact owned_next hnext ih

/-- The long text is refused and the sample published after that; somebody opens the region, and
then its maker lets go of it. -/
theorem exists_torn_run : ∃ r d' x, create "scene" 80 Directory.empty = (.ok r, d') ∧
    Relation.ReflTransGen Next (fresh r d') x ∧ x.published = true ∧ x.stage = .tornDown ∧
    x.handles.length = 1 := by
  obtain ⟨d₀, d₁, d₂, fault, q, hd₀, hd₁, hd₂, hattach, hobject⟩ := Session.exists_sample_steps
  have hrefused := Next.publish (x := fresh Session.scene d₀) (List.mem_singleton_self _)
    Session.long .checked hd₁
  have hdone := Next.publish (x := ⟨d₁, 0, "scene", [Session.scene], [.error fault]⟩)
    (List.mem_singleton_self _) Session.sample .checked hd₂
  have hopened := Next.attach (x := ⟨d₂, 0, "scene", [Session.scene], [.error fault, .ok ()]⟩)
    hattach hobject
  have hdropped := Next.drop (x := ⟨d₂, 0, "scene", [q, Session.scene], [.error fault, .ok ()]⟩)
    (show _ = [q] ++ Session.scene :: [] from rfl)
  refine ⟨Session.scene, d₀, _, hd₀,
    .tail (.tail (.tail (.single hrefused) hdone) hopened) hdropped, rfl, ?_, rfl⟩
  obtain ⟨⟨a, hfound, rfl⟩, -⟩ := attach_eq_ok_iff.1 hattach
  rw [stage_eq_tornDown_iff]
  exact (Bool.or_false _).trans hfound.owner_eq

/-- A life in which everything happens is orderly to its end, and whoever opens the region at its
beginning learns that nothing was published. -/
theorem orderly_of_made_torn :
    (∃ r d' x, create "scene" 80 Directory.empty = (.ok r, d') ∧
      Relation.ReflTransGen Next (fresh r d') x ∧ x.stage = .tornDown ∧
      x.memory.load32 stateAt = RegionState.tornDown.code ∧ x.answers.countP (·.isOk) = 1 ∧
      ∀ (q : Region) (v : Value) (mode : BuildMode),
        q.publish v mode x.memory = (.error .regionAlreadyBuilt, x.memory)) ∧
    ∃ r d', create "scene" 80 Directory.empty = (.ok r, d') ∧
      Region.attach "scene" d' = (.error (.refused (.regionNotReady 0)), d') := by
  constructor
  · obtain ⟨r, d', x, hcreate, hrun, hpublished, htorn, -⟩ := exists_torn_run
    have horderly := orderly_of_made hcreate hrun
    refine ⟨r, d', x, hcreate, hrun, htorn, htorn ▸ horderly.state_eq, ?_,
      (horderly.settled hpublished x .refl).refused⟩
    have hpos : 0 < x.answers.countP (·.isOk) :=
      List.countP_pos_iff.2 (List.any_eq_true.1 hpublished)
    have honce := horderly.once
    omega
  · have hgrants : Directory.empty.Grants "scene" (wholeSize 80) :=
      Directory.grants_empty (by decide) (by decide) (by decide)
    have hcreate : create "scene" 80 Directory.empty = (.ok _, _) :=
      create_eq_ok_iff.2 ⟨by decide, hgrants, rfl, rfl⟩
    refine ⟨_, _, hcreate, ((orderly_of_made hcreate .refl).waiting ?_).attach_eq fun _ => rfl⟩
    exact stage_eq_empty_iff.2 ⟨owned_of_mem (List.mem_singleton_self _) rfl, rfl⟩

end Life

end Region

end SharedExchange
