import Mathlib.Tactic
import SharedExchange.Proofs.Arena.Publishing
import SharedExchange.Proofs.Making

/-! # A region in use

A `Session` is a region with everybody who holds it: the directory, the handles on its object, and
the value that was published, once there is one. `Next` is what may happen while the maker holds
the region: somebody opens it, somebody tries to publish, or something goes on in the directory that
has nothing to do with it. -/

namespace SharedExchange.Region

open Arena (BuildMode)

/-! ## Making and opening -/

/-- A fresh region is empty, and its header says where its arena lies. -/
theorem eq_of_create {name : String} {size : UInt64} {d d' : Directory} {r : Region}
    (h : create name size d = (.ok r, d')) :
    r.arenaStart = freshArenaStart ∧
      (d'.memory r.attachment.object).load32 stateAt = RegionState.empty.code ∧
      (d'.memory r.attachment.object).load64 arenaStartAt = freshArenaStart ∧
      (d'.memory r.attachment.object).load64 capacityAt = r.capacity := by
  obtain ⟨-, -, rfl, rfl⟩ := create_eq_ok_iff.1 h
  simp only [Directory.memory_establish]
  refine ⟨trivial, ?_, ?_, ?_⟩
  · rw [format, Memory.load32_store64_of_disjoint _ _ (.inl (by decide)),
      Memory.load32_store64_of_disjoint _ _ (.inl (by decide)),
      Memory.load32_store64_of_disjoint _ _ (.inl (by decide)),
      Memory.load32_store64_of_disjoint _ _ (.inl (by decide)),
      Memory.load32_store32_of_disjoint _ _ (.inl (by decide)), Memory.load32_store32_same]
  · rw [format, Memory.load64_store64_of_disjoint _ _ (.inl (by decide)),
      Memory.load64_store64_of_disjoint _ _ (.inl (by decide)),
      Memory.load64_store64_of_disjoint _ _ (.inl (by decide)), Memory.load64_store64_same]
  · rw [format, Memory.load64_store64_of_disjoint _ _ (.inl (by decide)),
      Memory.load64_store64_of_disjoint _ _ (.inl (by decide)), Memory.load64_store64_same]

/-- Whoever opens a region finds the arena by the header. -/
theorem eq_of_attach {name : String} {d d' : Directory} {q : Region}
    (h : attach name d = (.ok q, d')) :
    q.arenaStart = (d.memory q.attachment.object).load64 arenaStartAt ∧
      q.capacity = (d.memory q.attachment.object).load64 capacityAt := by
  obtain ⟨⟨a, -, rfl⟩, -⟩ := attach_eq_ok_iff.1 h
  exact ⟨rfl, rfl⟩

/-! ## Sessions -/

/-- A region and everybody who holds it. -/
structure Session where
  directory : Directory
  object : ObjectId
  handles : List Region
  /-- The value that was published. -/
  published : Option Value

namespace Session

/-- The contents of the object. -/
def memory (s : Session) : Memory := s.directory.memory s.object

/-- A region that only its maker holds. -/
def fresh (r : Region) (d : Directory) : Session := ⟨d, r.attachment.object, [r], none⟩

/-- The value that stands published after an attempt to publish `v`. -/
def receive (v : Value) (published : Option Value) : Except Fault Unit → Option Value
  | .ok () => some v
  | .error _ => published

/-- One thing that happens while the maker holds the region. -/
inductive Next : Session → Session → Prop
  /-- The directory changes, but not the object. -/
  | elsewhere {s : Session} (d : Directory) (h : d.memory s.object = s.memory) :
    Next s { s with directory := d }
  /-- Somebody opens the region. -/
  | attach {s : Session} {name : String} {q : Region} {d : Directory}
    (h : Region.attach name s.directory = (.ok q, d))
    (hobject : q.attachment.object = s.object) :
    Next s { s with directory := d, handles := q :: s.handles }
  /-- Somebody publishes a value, or fails to. -/
  | publish {s : Session} {q : Region} (hq : q ∈ s.handles) (v : Value) (mode : BuildMode)
    {answer : Except Fault Unit} {d : Directory}
    (h : s.directory.run s.object (q.publish v mode) = (answer, d)) :
    Next s { s with directory := d, published := receive v s.published answer }

/-- What holds of a session with an arena of `capacity` bytes, whatever happens: all handles know
where the arena lies, and the region presents the value that was published, if there is one. -/
structure Kept (capacity : UInt64) (s : Session) : Prop where
  arenaStart_eq : s.memory.load64 arenaStartAt = freshArenaStart
  capacity_eq : s.memory.load64 capacityAt = capacity
  agree : ∀ q ∈ s.handles, q.arenaStart = freshArenaStart ∧ q.capacity = capacity
  /-- The region is empty before a value is published, and never again. -/
  state_eq : s.memory.load32 stateAt =
    if s.published.isSome then RegionState.ready.code else RegionState.empty.code
  presents : ∀ v ∈ s.published, v.Coherent → v.Ordered → v.Fits → Presents capacity s.memory v

variable {capacity : UInt64} {s s' : Session}

/-- A region that was just made is empty. -/
theorem kept_fresh {name : String} {size : UInt64} {d d' : Directory} {r : Region}
    (h : create name size d = (.ok r, d')) : (fresh r d').Kept r.capacity := by
  obtain ⟨hstart, hstate, harena, hcapacity⟩ := eq_of_create h
  refine ⟨harena, hcapacity, ?_, hstate, fun v hv => by cases hv⟩
  intro q hq
  rw [List.mem_singleton.1 hq]
  exact ⟨hstart, rfl⟩

/-- Whoever opens the region finds the arena where the others know it. -/
theorem Kept.attach (h : s.Kept capacity) {name : String} {q : Region} {d : Directory}
    (hq : Region.attach name s.directory = (.ok q, d)) (hobject : q.attachment.object = s.object) :
    Kept capacity { s with directory := d, handles := q :: s.handles } := by
  obtain ⟨hstart, hcapacity⟩ := eq_of_attach hq
  obtain rfl : d = s.directory := (attach_eq_ok_iff.1 hq).2
  rw [hobject] at hstart hcapacity
  refine ⟨h.arenaStart_eq, h.capacity_eq, ?_, h.state_eq, h.presents⟩
  intro q' hq'
  rcases List.mem_cons.1 hq' with rfl | hq'
  · exact ⟨hstart.trans h.arenaStart_eq, hcapacity.trans h.capacity_eq⟩
  · exact h.agree q' hq'

/-- A value that is published is presented, and nothing is published behind it. -/
theorem Kept.publish (h : s.Kept capacity) {q : Region} (hq : q ∈ s.handles) (v : Value)
    (mode : BuildMode) {answer : Except Fault Unit} {d : Directory}
    (hrun : s.directory.run s.object (q.publish v mode) = (answer, d)) :
    Kept capacity { s with directory := d, published := receive v s.published answer } := by
  obtain ⟨hstart, hcapacity⟩ := h.agree q hq
  -- what publishing does to the object
  obtain ⟨hpublish, hd⟩ : (q.publish v mode s.memory).1 = answer ∧
      d = s.directory.update s.object (q.publish v mode s.memory).2 := by
    rw [Directory.run] at hrun
    exact ⟨(Prod.mk.inj hrun).1, (Prod.mk.inj hrun).2.symm⟩
  have hmemory : d.memory s.object = (q.publish v mode s.memory).2 := by
    rw [hd, Directory.memory_update_same]
  have heq : q.publish v mode s.memory = (answer, d.memory s.object) := by
    rw [hmemory, ← hpublish]
  have hword : ∀ position, arenaStartAt ≤ position → position + 8 ≤ usedAt →
      (d.memory s.object).load64 position = s.memory.load64 position :=
    fun position hfrom hto => Memory.load64_congr fun i hi hi' =>
      get_publish hstart heq ⟨hfrom.trans hi, hi'.trans_le hto⟩
  refine ⟨?_, ?_, h.agree, ?_, ?_⟩
  · exact (hword _ (by decide) (by decide)).trans h.arenaStart_eq
  · exact (hword _ (by decide) (by decide)).trans h.capacity_eq
  · cases answer with
    | ok =>
      obtain ⟨-, root, w, -, hannounced⟩ := announced_of_publish heq
      exact hannounced.state_eq
    | error fault => exact (load32_of_publish_error heq).trans h.state_eq
  · intro v' hv' hcoherent hordered hfits
    cases answer with
    | ok =>
      obtain rfl := Option.some.inj hv'
      rw [← hcapacity]
      -- a value was published, and it is the one that is presented
      exact presents_of_publish hstart hcoherent hordered hfits heq
    | error fault =>
      -- nothing was written, as the region was not empty
      have hbefore : s.published = some v' := hv'
      have hstate := h.state_eq
      rw [hbefore, Option.isSome_some, if_pos rfl] at hstate
      have hready : s.memory.load32 stateAt ≠ RegionState.empty.code := by
        rw [hstate]
        decide
      have hsame : ({ s with
          directory := d, published := receive v s.published (.error fault) } : Session).memory =
            s.memory := hmemory.trans (by rw [publish_of_not_empty q v mode hready])
      rw [hsame]
      exact h.presents v' hv' hcoherent hordered hfits

/-- One thing that happens keeps the session sound. -/
theorem Kept.next (h : s.Kept capacity) (hnext : Next s s') : s'.Kept capacity := by
  cases hnext with
  | elsewhere d hd =>
    have hsame : ({ s with directory := d } : Session).memory = s.memory := hd
    refine ⟨?_, ?_, h.agree, ?_, ?_⟩
    · rw [hsame]
      exact h.arenaStart_eq
    · rw [hsame]
      exact h.capacity_eq
    · rw [hsame]
      exact h.state_eq
    · rw [hsame]
      exact h.presents
  | attach hq hobject => exact h.attach hq hobject
  | publish hq v mode hrun => exact h.publish hq v mode hrun

/-- Whatever happens, the session stays sound. -/
theorem Kept.run (h : s.Kept capacity) (hrun : Relation.ReflTransGen Next s s') :
    s'.Kept capacity := by
  induction hrun with
  | refl => exact h
  | tail _ hnext ih => exact ih.next hnext

/-- Handles stay. -/
theorem mem_handles_of_run (hrun : Relation.ReflTransGen Next s s') {q : Region}
    (hq : q ∈ s.handles) : q ∈ s'.handles := by
  induction hrun with
  | refl => exact hq
  | tail _ hnext ih =>
    cases hnext with
    | elsewhere => exact ih
    | attach => exact List.mem_cons_of_mem _ ih
    | publish => exact ih

/-- Once a value is published, in whichever mode and after whatever attempts that failed, the maker
of the region and everybody who opened it copy out the same content, and two paths lead to one node
of the copy exactly when they lead to one node of the value. -/
theorem toValue_of_run {name : String} {size : UInt64} {d d' : Directory} {r : Region}
    (hcreate : create name size d = (.ok r, d')) (hrun : Relation.ReflTransGen Next (fresh r d') s)
    {v : Value} (hpublished : s.published = some v) (hcoherent : v.Coherent)
    (hordered : v.Ordered) (hfits : v.Fits) :
    r ∈ s.handles ∧ ∀ q ∈ s.handles, ∀ node : NodeId,
      ∃ w, q.toValue node s.memory = .ok w ∧ w.content = v.content ∧ w.SharesAs v := by
  have hkept := (kept_fresh hcreate).run hrun
  refine ⟨mem_handles_of_run hrun (List.mem_singleton_self r), ?_⟩
  intro q hq node
  obtain ⟨hstart, hcapacity⟩ := hkept.agree q hq
  have hpresents := hkept.presents v hpublished hcoherent hordered hfits
  rw [← hcapacity] at hpresents
  exact toValue_of_presents hstart hpresents node

/-- A vector that holds one text three times, twice inside a node that is seen under two kinds. -/
def sample : Value :=
  .seq .vector 3 [.seq .vector 2 [.text 1 "a"], .seq .array 2 [.text 1 "a"], .text 1 "a"]

/-- A text for which the arena of the scene has no room. -/
def long : Value := .text 4
  "more than the seventy-two bytes for which there is room in the arena of 80 bytes"

/-- The handle of the maker of a region with an arena of 80 bytes. -/
def scene : Region := ⟨⟨0, "scene", 144, true⟩, 64, 80⟩

/-- In an arena of 80 bytes a long text is refused, the sample is published after that, and the
region can be opened then. -/
theorem exists_sample_steps : ∃ d₀ d₁ d₂ fault q,
    create "scene" 80 Directory.empty = (.ok scene, d₀) ∧
    d₀.run 0 (scene.publish long .checked) = (.error fault, d₁) ∧
    d₁.run 0 (scene.publish sample .checked) = (.ok (), d₂) ∧
    Region.attach "scene" d₂ = (.ok q, d₂) ∧ q.attachment.object = 0 := by
  have hcreate : (create "scene" 80 Directory.empty).1 = .ok scene :=
    congrArg Prod.fst (create_eq_ok_iff.2
      ⟨by decide, Directory.grants_empty (by decide) (by decide) (by decide), rfl, rfl⟩)
  let d₀ := (create "scene" 80 Directory.empty).2
  let d₁ := (d₀.run 0 (scene.publish long .checked)).2
  let d₂ := (d₁.run 0 (scene.publish sample .checked)).2
  have hrefused : (d₀.run 0 (scene.publish long .checked)).1 = .error (.arenaExhausted 88 80) := by
    decide +kernel
  have hdone : (d₁.run 0 (scene.publish sample .checked)).1 = .ok () := by decide +kernel
  have hpeer : (Region.attach "scene" d₂).1.toOption.map (·.attachment.object) = some 0 := by
    decide +kernel
  have hfound : ∀ (d : Directory) (q : Region), (Region.attach "scene" d).1 = .ok q →
      Region.attach "scene" d = (.ok q, d) := fun d q h => Prod.ext h (d.examine_snd _ _)
  obtain ⟨q, hq, hobject⟩ := Option.map_eq_some_iff.1 hpeer
  exact ⟨d₀, d₁, d₂, _, q, Prod.fst_eq_iff.1 hcreate, Prod.fst_eq_iff.1 hrefused,
    Prod.fst_eq_iff.1 hdone, hfound d₂ q (toOption_eq_some_iff.1 hq), hobject⟩

/-- So goes a run. -/
theorem exists_sample_run : ∃ r d' s, create "scene" 80 Directory.empty = (.ok r, d') ∧
    Relation.ReflTransGen Next (fresh r d') s ∧ s.published = some sample ∧
    s.handles.length = 2 := by
  obtain ⟨d₀, d₁, d₂, fault, q, hd₀, hd₁, hd₂, hattach, hobject⟩ := exists_sample_steps
  have hrefused := Next.publish (s := fresh scene d₀) (List.mem_singleton_self scene) long .checked
    hd₁
  have hdone := Next.publish (s := ⟨d₁, 0, [scene], none⟩) (List.mem_singleton_self scene) sample
    .checked hd₂
  have hopened := Next.attach (s := ⟨d₂, 0, [scene], some sample⟩) hattach hobject
  exact ⟨scene, d₀, _, hd₀, .tail (.tail (.single hrefused) hdone) hopened, rfl, rfl⟩

/-- Both copies of the sample have its content, and share what it shares. -/
theorem toValue_of_run_sample : ∃ r d' s, create "scene" 80 Directory.empty = (.ok r, d') ∧
    Relation.ReflTransGen Next (fresh r d') s ∧ s.published = some sample ∧
    s.handles.length = 2 ∧ r ∈ s.handles ∧ ∀ q ∈ s.handles, ∀ node : NodeId,
      ∃ w, q.toValue node s.memory = .ok w ∧ w.content = sample.content ∧ w.SharesAs sample := by
  obtain ⟨r, d', s, hcreate, hrun, hpublished, hhandles⟩ := exists_sample_run
  have hcoherent : sample.Coherent := by
    simp [Value.Coherent, sample, Value.parts, Value.itemParts, Value.sameNode]
  have hordered : sample.Ordered := by
    simp [sample, Value.Ordered, Value.ItemsOrdered]
  have hfits : sample.Fits := by
    simp [sample, Value.Fits, Value.ItemsFit]
    decide
  exact ⟨r, d', s, hcreate, hrun, hpublished, hhandles,
    toValue_of_run hcreate hrun hpublished hcoherent hordered hfits⟩

end Session

end SharedExchange.Region
