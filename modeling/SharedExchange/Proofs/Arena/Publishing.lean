import Mathlib.Tactic
import SharedExchange.Arena.Region
import SharedExchange.Proofs.Arena.Outcome

/-! # What publishing writes

A writer leaves alone what lies in front of its arena (`get_build`), so an attempt to publish that
fails leaves a region as it was, but for the arena itself. When it succeeds, the region *presents*
the value (`Presents`): the arena has a copy whose nodes are numbered by their places, and whoever
reads the region finds it (`toValue_of_presents`). -/

namespace SharedExchange

namespace Region

open Arena (BuildMode Site Writer)

variable {r : Region} {v : Value} {mode : BuildMode} {m m' : Memory}

/-! ## Building -/

/-- Building leaves alone what lies in front of the arena. -/
theorem get_build (r : Region) (v : Value) (mode : BuildMode) (m : Memory) {i : Nat}
    (hi : i < r.arenaStart.toNat) : (r.build v mode m).2.memory.get i = m.get i := by
  have hput : (Writer.put ⟨r.arenaStart.toNat, r.capacity.toNat, mode⟩ v
      ⟨m, 0, 0, ∅⟩).2.memory.get i = m.get i := (Arena.put_spent _ v _).get_eq i (.inl hi)
  rw [build]
  simp only
  split
  · rfl
  · split
    · next hfailed => rwa [hfailed] at hput
    · next hdone =>
      rw [hdone] at hput
      split <;> exact hput

/-- A value that was built is denoted at the root, inside the arena. -/
theorem build_spec {root : Nat} {w : Writer} (hcoherent : v.Coherent) (hordered : v.Ordered)
    (hfits : v.Fits) (h : r.build v mode m = (.ok root, w)) :
    Arena.Puts v ⟨r.arenaStart.toNat, r.capacity.toNat, mode⟩ v ⟨m, 0, 0, ∅⟩ w root ∧
      w.cursor ≤ r.capacity.toNat := by
  rw [build] at h
  simp only at h
  split at h
  · cases (Prod.mk.inj h).1
  · next hroom =>
    split at h
    · cases (Prod.mk.inj h).1
    · next found w₁ hput =>
      split at h
      · cases (Prod.mk.inj h).1
      · obtain ⟨hroot, hw⟩ := Prod.mk.inj h
        rw [← hw, ← Except.ok.inj hroot]
        have hputs := Arena.put_spec hcoherent v v.self_mem_parts hordered hfits
          (Arena.kept_fresh ..) hput
        refine ⟨hputs, ?_⟩
        cases mode with
        | checked => exact hputs.builds.kept.within rfl
        | fast =>
          -- the room was measured beforehand, and writing takes as much
          have hmeasured := (Arena.put_room hcoherent v v.self_mem_parts
            (Arena.agrees_fresh m) (fun _ _ _ _ hopen => hopen) hput).1
          have hfits : ¬r.capacity.toNat < Arena.requiredSize v := fun hlt => hroom ⟨rfl, hlt⟩
          rw [Nat.zero_add] at hmeasured
          rw [hmeasured]
          exact Nat.not_lt.1 hfits

/-! ## Publishing -/

/-- Moving on to another stage touches the word of the stage alone. -/
theorem get_enter (stage : RegionState) (m : Memory) {i : Nat}
    (h : i < stateAt ∨ stateAt + 4 ≤ i) : (enter stage m).get i = m.get i :=
  Memory.get_store32_of_disjoint m _ h

/-- The stage that was entered is read back. -/
@[simp] theorem load32_enter (stage : RegionState) (m : Memory) :
    (enter stage m).load32 stateAt = stage.code :=
  Memory.load32_store32_same ..

/-- What the header says once a value was built, and what of the object it leaves alone: where the
arena lies, and the arena itself. -/
structure Announced (root : Nat) (w : Writer) (m : Memory) : Prop where
  state_eq : m.load32 stateAt = RegionState.ready.code
  used_eq : used m = UInt64.ofNat w.cursor
  root_eq : m.load64 rootAt = UInt64.ofNat root
  get_eq : ∀ i, arenaStartAt ≤ i ∧ i < usedAt ∨ signature.headerSize ≤ i →
    m.get i = w.memory.get i

/-- A value is published once, by the maker of the region, when it could be built. -/
theorem announced_of_publish (h : r.publish v mode m = (.ok (), m')) :
    m.load32 stateAt = RegionState.empty.code ∧
      ∃ root w, r.build v mode (enter .building m) = (.ok root, w) ∧ Announced root w m' := by
  rw [publish] at h
  split at h
  · cases (Prod.mk.inj h).1
  · next hempty =>
    rw [Bool.or_eq_true, not_or, decide_eq_true_eq, ne_eq, not_not] at hempty
    split at h
    · cases (Prod.mk.inj h).1
    · next root w hbuild =>
      have hm := (Prod.mk.inj h).2
      refine ⟨hempty.2, root, w, hbuild, ?_, ?_, ?_, ?_⟩
      · -- stage, cursor and root are written last; all of them stand in front of the arena
        rw [← hm, load32_enter]
      · rw [← hm, used, enter, Memory.load64_store32_of_disjoint _ _ (.inr (by decide)),
          Memory.load64_store64_of_disjoint _ _ (.inl (by decide)),
          Memory.load64_store64_of_disjoint _ _ (.inl (by decide)), Memory.load64_store64_same]
      · rw [← hm, enter, Memory.load64_store32_of_disjoint _ _ (.inr (by decide)),
          Memory.load64_store64_of_disjoint _ _ (.inl (by decide)), Memory.load64_store64_same]
      · intro i hi
        simp only [arenaStartAt, usedAt, signature] at hi
        rw [← hm, get_enter _ _ (by rw [stateAt]; omega),
          Memory.get_store64_of_disjoint _ _ (by rw [nodeCountAt]; omega),
          Memory.get_store64_of_disjoint _ _ (by rw [rootAt]; omega),
          Memory.get_store64_of_disjoint _ _ (by rw [usedAt]; omega),
          Memory.get_store32_of_disjoint _ _ (by rw [modeAt]; omega)]

/-- Nothing is published in a region that is not empty. -/
theorem publish_of_not_empty (r : Region) (v : Value) (mode : BuildMode)
    (h : m.load32 stateAt ≠ RegionState.empty.code) :
    r.publish v mode m = (.error .regionAlreadyBuilt, m) := by
  rw [publish, if_pos (by rw [Bool.or_eq_true, decide_eq_true_eq]; exact .inr h)]

/-- However publishing ends, the arena lies where it did. -/
theorem get_publish (hstart : r.arenaStart = freshArenaStart) {answer : Except Fault Unit}
    (h : r.publish v mode m = (answer, m')) {i : Nat} (hi : arenaStartAt ≤ i ∧ i < usedAt) :
    m'.get i = m.get i := by
  have hfront : i < r.arenaStart.toNat := by
    rw [hstart]
    exact hi.2.trans (by decide)
  have hstage : ∀ (stage : RegionState) m, (enter stage m).get i = m.get i := fun stage m =>
    get_enter stage m (.inr (le_trans (by decide) hi.1))
  have hbuild := get_build r v mode (enter .building m) hfront
  rw [hstage] at hbuild
  cases answer with
  | ok =>
    obtain ⟨-, root, w, hdone, hannounced⟩ := announced_of_publish h
    rw [hdone] at hbuild
    rw [hannounced.get_eq i (.inl hi), hbuild]
  | error fault =>
    rw [publish] at h
    split at h
    · rw [← (Prod.mk.inj h).2]
    · split at h
      · next hfailed =>
        rw [hfailed] at hbuild
        rw [← (Prod.mk.inj h).2, hstage, hbuild]
      · cases (Prod.mk.inj h).1

/-- When publishing fails, the region is in the stage in which it was. -/
theorem load32_of_publish_error {fault : Fault} (h : r.publish v mode m = (.error fault, m')) :
    m'.load32 stateAt = m.load32 stateAt := by
  rw [publish] at h
  split at h
  · rw [← (Prod.mk.inj h).2]
  · next hempty =>
    rw [Bool.or_eq_true, not_or, decide_eq_true_eq, ne_eq, not_not] at hempty
    split at h
    · rw [← (Prod.mk.inj h).2, load32_enter, hempty.2]
    · cases (Prod.mk.inj h).1

/-! ## The published value -/

/-- A ready region whose arena holds the value: counted from any number on, its nodes get numbers
that differ for different nodes. -/
structure Presents (capacity : UInt64) (m : Memory) (v : Value) : Prop where
  state_eq : m.load32 stateAt = RegionState.ready.code
  used_le : used m ≤ capacity
  copy : ∃ place : Nat → Nat,
    (∀ a ∈ v.parts, ∀ b ∈ v.parts, ∀ k k', a.shareKey? = some k → b.shareKey? = some k' →
      place k = place k' → k = k') ∧
    ∀ node : NodeId, (⟨m, freshArenaStart.toNat, (used m).toNat⟩ : Arena).valueAt node
      (m.load64 rootAt).toNat = .ok (v.relabel fun k => node + place k)

/-- An announced arena is read as it was written, from where it was said to start. -/
theorem Announced.reads {root : Nat} {w : Writer} (h : Announced root w m) (mode : BuildMode)
    (hstart : r.arenaStart = freshArenaStart) (hroot : root < w.cursor)
    (hcursor : w.cursor ≤ r.capacity.toNat) :
    (used m).toNat = w.cursor ∧ (m.load64 rootAt).toNat = root ∧
      Arena.Reads ⟨r.arenaStart.toNat, r.capacity.toNat, mode⟩ w
        ⟨m, freshArenaStart.toNat, (used m).toNat⟩ := by
  have hcapacity := r.capacity.toNat_lt_size
  have hused : (used m).toNat = w.cursor := by
    rw [h.used_eq, UInt64.toNat_ofNat_of_lt' (hcursor.trans_lt hcapacity)]
  refine ⟨hused, ?_, ⟨congrArg UInt64.toNat hstart.symm, hused.ge, (used m).toNat_lt_size, ?_⟩⟩
  · rw [h.root_eq, UInt64.toNat_ofNat_of_lt' ((hroot.trans_le hcursor).trans hcapacity)]
  · intro i _
    -- behind the header nothing was written since
    have hheader : signature.headerSize ≤ r.arenaStart.toNat := by
      rw [hstart]
      decide
    exact h.get_eq _ (.inr (Nat.le_add_right_of_le hheader))

/-- A published value is presented. -/
theorem presents_of_publish (hstart : r.arenaStart = freshArenaStart) (hcoherent : v.Coherent)
    (hordered : v.Ordered) (hfits : v.Fits) (h : r.publish v mode m = (.ok (), m')) :
    Presents r.capacity m' v := by
  obtain ⟨-, root, w, hbuild, hannounced⟩ := announced_of_publish h
  obtain ⟨hputs, hcursor⟩ := build_spec hcoherent hordered hfits hbuild
  obtain ⟨hused, hroot, hreads⟩ := hannounced.reads mode hstart hputs.lt_cursor hcursor
  -- where the writer placed the nodes
  let place : Nat → Nat := fun k => w.placed.getD k 0
  have hplace : ∀ k offset : Nat, w.placed[k]? = some offset → place k = offset := by
    intro k offset hk
    show w.placed.getD k 0 = offset
    rw [Std.TreeMap.getD_eq_getD_getElem?, hk, Option.getD_some]
  refine ⟨hannounced.state_eq, ?_, place, ?_, ?_⟩
  · rw [UInt64.le_iff_toNat_le, hused]
    exact hcursor
  · intro a ha b hb k k' hak hbk heq
    obtain ⟨offset, hk⟩ := hputs.builds.complete a ha k hak
    obtain ⟨offset', hk'⟩ := hputs.builds.complete b hb k' hbk
    rw [hplace k offset hk, hplace k' offset' hk'] at heq
    rw [heq] at hk
    exact hputs.builds.kept.injective k k' offset' hk hk'
  · intro node
    rw [hroot]
    exact hputs.denotes _ place ⟨hreads, hplace⟩ node

/-- Whoever reads a region finds the value that it presents. -/
theorem toValue_of_presents (hstart : r.arenaStart = freshArenaStart)
    (h : Presents r.capacity m v) (node : NodeId) :
    ∃ w, r.toValue node m = .ok w ∧ w.content = v.content ∧ w.SharesAs v := by
  obtain ⟨hstate, hused, place, hinjective, hcopy⟩ := h
  -- the region is ready, and no more is used than there is
  have harena : r.arena m = .ok ⟨m, freshArenaStart.toNat, (used m).toNat⟩ := by
    simp only [arena, hstate, hstart, UInt64.not_lt.2 hused, ne_eq, not_true, if_false, bind,
      Except.bind, pure, Except.pure]
  refine ⟨v.relabel fun k => node + place k, ?_, Value.content_relabel .., ?_⟩
  · simp only [toValue, harena, bind, Except.bind, Arena.copyOut_eq_valueAt, hcopy node]
  · apply Value.sharesAs_relabel
    intro a ha b hb k k' hak hbk heq
    have hplace : node + place k = node + place k' := heq
    exact hinjective a ha b hb k k' hak hbk (Nat.add_left_cancel hplace)

end Region

end SharedExchange
