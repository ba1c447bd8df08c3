import Mathlib.Tactic
import SharedExchange.Proofs.Arena.Laying
import SharedExchange.Proofs.Arena.Measured
import SharedExchange.Proofs.Arena.Stepping

/-! # A published value read in place

Whoever holds a region in which a value was published walks the arena from its root, down the same
paths as in the value, and sees the same at their ends (`reach?_of_run`). -/

namespace SharedExchange.Region

open Arena (BuildMode Stands)

variable {r : Region} {v : Value} {mode : BuildMode} {m m' : Memory}

/-- The root of a published value stands for it. -/
theorem stands_of_publish (hstart : r.arenaStart = freshArenaStart) (hcoherent : v.Coherent)
    (hordered : v.Ordered) (hfits : v.Fits) (h : r.publish v mode m = (.ok (), m')) :
    ∃ n, r.root m' = .ok n ∧ n.arena.used < UInt64.size ∧ n.arena.start % 4 = 0 ∧
      Stands n.arena n v := by
  obtain ⟨-, root, w, hbuild, hannounced⟩ := announced_of_publish h
  obtain ⟨hputs, hcursor⟩ := build_spec hcoherent hordered hfits hbuild
  obtain ⟨hused, hroot, hreads⟩ :=
    hannounced.reads mode hstart hputs.lt_cursor hcursor
  obtain ⟨-, hput⟩ := put_of_build hcoherent hbuild
  have hlaid := (Arena.put_lays hcoherent v v.self_mem_parts hordered hfits
    (Arena.kept_fresh v (r.site mode) (enter .building m))
    (Arena.allLaid_fresh v (r.site mode) (enter .building m)) hput).1 _ hreads
  -- the region is ready, and no more is used than there is
  have hle : used m' ≤ r.capacity := by
    rw [UInt64.le_iff_toNat_le, hused]
    exact hcursor
  have harena : r.arena m' = .ok ⟨m', freshArenaStart.toNat, (used m').toNat⟩ := by
    simp only [arena, hannounced.state_eq, hstart, UInt64.not_lt.2 hle, ne_eq, not_true, if_false,
      bind, Except.bind, pure, Except.pure]
  refine ⟨Arena.nodeOf ⟨m', freshArenaStart.toNat, (used m').toNat⟩ root v, ?_, hreads.used_lt, ?_,
    rfl, hlaid, hfits, hordered⟩
  · simp only [Region.root, harena, hroot, bind, Except.bind, hlaid.node_eq hfits]
  · show freshArenaStart.toNat % 4 = 0
    decide

/-- Handles that know the arena alike find the same root. -/
theorem root_congr {q : Region} (hstart : q.arenaStart = r.arenaStart)
    (hcapacity : q.capacity = r.capacity) (m : Memory) : q.root m = r.root m := by
  simp only [Region.root, arena, hstart, hcapacity]

namespace Session

variable {capacity : UInt64} {s s' : Session}

/-- What stands published was published by somebody, and the object is as it was left then. -/
theorem exists_publish_of_run (hkept : s.Kept capacity) (hnone : s.published = none)
    (hrun : Relation.ReflTransGen Next s s') {v : Value} (hpublished : s'.published = some v) :
    ∃ (q : Region) (mode : BuildMode) (m : Memory), q.arenaStart = freshArenaStart ∧
      q.capacity = capacity ∧ q.publish v mode m = (.ok (), s'.memory) := by
  induction hrun with
  | refl =>
    rw [hnone] at hpublished
    cases hpublished
  | @tail s₁ s₂ hrun hnext ih =>
    have hkept₁ := hkept.run hrun
    cases hnext with
    | elsewhere d hd =>
      obtain ⟨q, mode, m, hstart, hcapacity, hpublish⟩ := ih hpublished
      exact ⟨q, mode, m, hstart, hcapacity, hpublish.trans (congrArg _ hd.symm)⟩
    | attach hq hobject =>
      obtain rfl := (attach_eq_ok_iff.1 hq).2
      exact ih hpublished
    | @publish q hq v' mode answer d hrun' =>
      -- what publishing does to the object
      obtain ⟨hanswer, hd⟩ := Prod.mk.inj hrun'
      have hmemory : d.memory s₁.object = (q.publish v' mode s₁.memory).2 := by
        rw [← hd, Directory.memory_update_same]
        rfl
      have hpublish : q.publish v' mode s₁.memory = (answer, d.memory s₁.object) :=
        Prod.ext hanswer hmemory.symm
      cases answer with
      | ok =>
        obtain rfl := Option.some.inj hpublished
        obtain ⟨hstart, hcapacity⟩ := hkept₁.agree q hq
        exact ⟨q, mode, s₁.memory, hstart, hcapacity, hpublish⟩
      | error fault =>
        -- it stood published before, so the region was not empty and nothing was written
        have hbefore : s₁.published = some v := hpublished
        have hready : s₁.memory.load32 stateAt ≠ RegionState.empty.code := by
          rw [hkept₁.state_eq, hbefore, Option.isSome_some, if_pos rfl]
          decide
        rw [publish_of_not_empty q v' mode hready] at hpublish
        obtain ⟨q', mode', m, hstart, hcapacity, hpublished'⟩ := ih hbefore
        exact ⟨q', mode', m, hstart, hcapacity,
          hpublished'.trans (congrArg _ (Prod.mk.inj hpublish).2)⟩

/-- Once a value is published, whoever holds the region finds a root from which every path leads to
a node that shows what the value has at its end, or leads nowhere in both. -/
theorem reach?_of_run {name : String} {size : UInt64} {d d' : Directory} {r : Region}
    (hcreate : create name size d = (.ok r, d')) (hrun : Relation.ReflTransGen Next (fresh r d') s)
    {v : Value} (hpublished : s.published = some v) (hcoherent : v.Coherent)
    (hordered : v.Ordered) (hfits : v.Fits) :
    r ∈ s.handles ∧ ∀ q ∈ s.handles, ∃ n, q.root s.memory = .ok n ∧
      ∀ path, Option.Rel Node.Shows (n.reach? path) (v.reach? path) := by
  have hkept := kept_fresh hcreate
  refine ⟨mem_handles_of_run hrun (List.mem_singleton_self r), fun q hq => ?_⟩
  obtain ⟨hstart, hcapacity⟩ := (hkept.run hrun).agree q hq
  obtain ⟨q', mode, m, hstart', hcapacity', hpublish⟩ :=
    exists_publish_of_run hkept rfl hrun hpublished
  obtain ⟨n, hroot, hused, haligned, hstands⟩ :=
    stands_of_publish hstart' hcoherent hordered hfits hpublish
  refine ⟨n, ?_, fun path => hstands.reach?_shows hused haligned path⟩
  rw [root_congr (hstart.trans hstart'.symm) (hcapacity.trans hcapacity'.symm), hroot]

/-- A number and a sequence with a float shape and a text, under two keys. -/
def catalogue : Value :=
  .dict .map 3 [("a", .integer .int8 0xfd#8),
    ("b", .seq .vector 2 [.floats .vec2 #v[0x3f800000, 0xffc00001], .text 1 "x"])]

/-- The catalogue is published in a region of 160 bytes, without checks on the way. -/
theorem exists_catalogue_run : ∃ r d' s, create "shelf" 160 Directory.empty = (.ok r, d') ∧
    Relation.ReflTransGen Next (fresh r d') s ∧ s.published = some catalogue := by
  let r : Region := ⟨⟨0, "shelf", 224, true⟩, 64, 160⟩
  have hcreate : (create "shelf" 160 Directory.empty).1 = .ok r :=
    congrArg Prod.fst (create_eq_ok_iff.2
      ⟨by decide, Directory.grants_empty (by decide) (by decide) (by decide), rfl, rfl⟩)
  obtain ⟨d₀, d₁, hd₀, hd₁⟩ : ∃ d₀ d₁, create "shelf" 160 Directory.empty = (.ok r, d₀) ∧
      d₀.run 0 (r.publish catalogue .fast) = (.ok (), d₁) :=
    ⟨_, _, Prod.ext hcreate rfl, Prod.ext (by decide +kernel) rfl⟩
  have hdone := Next.publish (s := fresh r d₀) (List.mem_singleton_self r) catalogue .fast hd₁
  exact ⟨r, d₀, _, hd₀, .single hdone, rfl⟩

/-- The catalogue is read in place: under one key stands the number with its sign, and a key that
it does not have leads nowhere. -/
theorem reach?_of_run_catalogue : ∃ r d' s, create "shelf" 160 Directory.empty = (.ok r, d') ∧
    Relation.ReflTransGen Next (fresh r d') s ∧ s.published = some catalogue ∧
    ∃ n, r.root s.memory = .ok n ∧
      (∀ path, Option.Rel Node.Shows (n.reach? path) (catalogue.reach? path)) ∧
      (n.reach? [.key "a"]).bind Node.toInt? = some (-3) ∧ n.reach? [.key "c"] = none := by
  obtain ⟨r, d', s, hcreate, hrun, hpublished⟩ := exists_catalogue_run
  have hcoherent : catalogue.Coherent := by
    simp [Value.Coherent, catalogue, Value.parts, Value.itemParts, Value.entryParts,
      Value.sameNode]
  have hordered : catalogue.Ordered := by
    have hab : Utf8.order "a" "b" = .lt := by decide
    simp [catalogue, Value.Ordered, Value.EntriesOrdered, Value.ItemsOrdered, hab]
  have hfits : catalogue.Fits := by
    have ha : Utf8.size "a" < UInt32.size := by decide
    have hb : Utf8.size "b" < UInt32.size := by decide
    have hx : Utf8.size "x" < UInt32.size := by decide
    simp only [catalogue, Value.Fits, Value.EntriesFit, Value.ItemsFit, List.length_cons,
      List.length_nil, ha, hb, hx]
    decide
  obtain ⟨hr, hall⟩ := reach?_of_run hcreate hrun hpublished hcoherent hordered hfits
  obtain ⟨n, hroot, hreach⟩ := hall r hr
  refine ⟨r, d', s, hcreate, hrun, hpublished, n, hroot, hreach, ?_, ?_⟩
  · -- what the path finds in place shows the number that it finds in the value
    have hnumber := hreach [.key "a"]
    rw [show catalogue.reach? [.key "a"] = some (.integer .int8 0xfd#8) from rfl] at hnumber
    cases hfound : n.reach? [.key "a"] with
    | none =>
      rw [hfound] at hnumber
      cases hnumber
    | some child =>
      rw [hfound] at hnumber
      cases hnumber with
      | some hshows => exact hshows.toInt?_eq
  · -- where the value has nothing, nothing is found in place
    have hnothing := hreach [.key "c"]
    rw [show catalogue.reach? [.key "c"] = none from rfl] at hnothing
    cases hfound : n.reach? [.key "c"] with
    | none => rfl
    | some child =>
      rw [hfound] at hnothing
      cases hnothing

end Session

end SharedExchange.Region
