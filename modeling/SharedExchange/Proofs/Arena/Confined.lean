import Mathlib.Tactic
import SharedExchange.Proofs.Arena.Depth
import SharedExchange.Proofs.Arena.Footprint

/-! # A region with any contents

Whoever attaches to a region has made sure of its header, and of nothing else: the arena, the root
and the used size may say anything. `Region.Obtains` are the nodes that can be reached from the root
by the accessors. `Region.Confined` says what holds of all of them all the same: they lie inside the
used part, that lies inside the object, no other byte is ever looked at, and searching and copying
come to an end (`Region.confined_of_attach`). -/

namespace SharedExchange

namespace Node

variable {n child : Node}

/-- An item is a child. -/
theorem exists_child_of_item? {i : Nat} (h : n.item? i = some child) :
    ∃ reference, (n.child reference).toOption = some child := by
  rw [item?] at h
  split at h
  · obtain ⟨reference, -, hchild⟩ := Option.bind_eq_some_iff.1 h
    exact ⟨reference, hchild⟩
  · cases h

/-- The value of an entry is a child. -/
theorem exists_child_of_entry? {i : Nat} {key : String} (h : n.entry? i = some (key, child)) :
    ∃ reference, (n.child reference).toOption = some child := by
  rw [Node.entry?] at h
  simp only [Option.bind_eq_bind, Option.bind_eq_some_iff, pure, Option.some.injEq,
    Prod.mk.injEq] at h
  obtain ⟨references, -, keyNode, -, value, hvalue, found, -, -, rfl⟩ := h
  exact ⟨references.2, hvalue⟩

/-- A search finds the value of an entry between the two positions that has the key. -/
theorem entry?_of_search {key : String} {steps low high : Nat}
    (h : n.search key steps low high = some child) :
    ∃ i, low ≤ i ∧ i < high ∧ n.entry? i = some (key, child) := by
  induction steps generalizing low high with
  | zero => cases h
  | succ steps ih =>
    rw [search_eq] at h
    split at h
    · split at h
      · cases h
      · next found value hentry =>
        split at h
        · next heq =>
          rw [Utf8.order_eq_iff.1 heq, Option.some.inj h] at hentry
          exact ⟨low + (high - low) / 2, by omega, by omega, hentry⟩
        · obtain ⟨i, hlow, hhigh, hfound⟩ := ih h
          exact ⟨i, by omega, hhigh, hfound⟩
        · obtain ⟨i, hlow, hhigh, hfound⟩ := ih h
          exact ⟨i, hlow, by omega, hfound⟩
    · cases h

/-- What is found under a key is a child. -/
theorem exists_child_of_lookup? {key : String} (h : n.lookup? key = some child) :
    ∃ reference, (n.child reference).toOption = some child := by
  obtain ⟨i, -, -, hentry⟩ := entry?_of_search h
  exact exists_child_of_entry? hentry

/-- Each of the items is a child. -/
theorem exists_child_of_mem_items (h : child ∈ n.items) :
    ∃ reference, (n.child reference).toOption = some child := by
  obtain ⟨i, -, hitem⟩ := List.mem_filterMap.1 h
  exact exists_child_of_item? hitem

/-- Each value of the entries is a child. -/
theorem exists_child_of_mem_entries {key : String} (h : (key, child) ∈ n.entries) :
    ∃ reference, (n.child reference).toOption = some child := by
  obtain ⟨i, -, hentry⟩ := List.mem_filterMap.1 h
  exact exists_child_of_entry? hentry

end Node

namespace Region

open Arena (Acyclic SameUsed)

variable {r : Region} {m m' : Memory} {a : Arena} {n : Node}

/-! ## The used part -/

/-- The used part of the arena, as the header of the object has it. -/
def view (r : Region) (m : Memory) : Arena := ⟨m, r.arenaStart.toNat, (used m).toNat⟩

/-- The arena of a region can be read when it is ready and no more is in use than there is. -/
theorem arena_eq_ok_iff : r.arena m = .ok a ↔
    m.load32 stateAt = RegionState.ready.code ∧ used m ≤ r.capacity ∧ a = r.view m := by
  rw [arena]
  simp only [refuse_eq_ok_iff, pure_eq_ok_iff, ne_eq, not_not, UInt64.not_lt]
  exact and_congr_right fun _ => and_congr_right fun _ => eq_comm

/-- Two objects that say the same in the header about the value, and have the same bytes in use. -/
structure SameSeen (r : Region) (m m' : Memory) : Prop where
  state_eq : m'.load32 stateAt = m.load32 stateAt
  used_eq : used m' = used m
  root_eq : m'.load64 rootAt = m.load64 rootAt
  get_eq : ∀ i < (used m).toNat, m'.get (r.arenaStart.toNat + i) = m.get (r.arenaStart.toNat + i)

/-- Whoever sees the same header and the same used bytes sees the same arena. -/
theorem SameSeen.sameUsed (h : r.SameSeen m m') : SameUsed (r.view m) (r.view m') where
  start_eq := rfl
  used_eq := congrArg UInt64.toNat h.used_eq
  get_eq := h.get_eq

/-- Whoever sees the same reads the same arena. -/
theorem SameSeen.arena_eq (h : r.SameSeen m m') :
    r.arena m' = (r.arena m).map fun _ => r.view m' := by
  rw [arena, arena, h.state_eq, h.used_eq]
  split
  · rfl
  · simp only
    split
    · rfl
    · rw [view, h.used_eq]
      rfl

/-- Whoever sees the same finds the same root. -/
theorem SameSeen.root_eq_map (h : r.SameSeen m m') :
    r.root m' = (r.root m).map (Node.onto (r.view m')) := by
  rw [root, root, h.arena_eq, h.root_eq, map_bind, bind_map]
  refine bind_congr_ok fun a hfound => ?_
  obtain ⟨-, -, rfl⟩ := arena_eq_ok_iff.1 hfound
  exact h.sameUsed.node_eq _

/-- Whoever sees the same copies the same value. -/
theorem SameSeen.toValue_eq (h : r.SameSeen m m') (node : NodeId) :
    r.toValue node m' = r.toValue node m := by
  rw [toValue, toValue, h.arena_eq, h.root_eq, map_bind]
  refine bind_congr_ok fun a hfound => ?_
  obtain ⟨-, -, rfl⟩ := arena_eq_ok_iff.1 hfound
  exact h.sameUsed.copyOut_eq node _

/-! ## Nodes that are obtained -/

/-- The nodes that can be reached from the root, however the accessors are combined. -/
inductive Obtains (r : Region) (m : Memory) : Node → Prop
  | root {n : Node} (h : r.root m = .ok n) : Obtains r m n
  | item {n child : Node} (hn : Obtains r m n) {i : Nat} (h : n.item? i = some child) :
    Obtains r m child
  | lookup {n child : Node} (hn : Obtains r m n) {key : String} (h : n.lookup? key = some child) :
    Obtains r m child
  | items {n child : Node} (hn : Obtains r m n) (h : child ∈ n.items) : Obtains r m child
  | entries {n child : Node} (hn : Obtains r m n) {key : String} (h : (key, child) ∈ n.entries) :
    Obtains r m child

/-- What holds of the root and is handed down along references holds of all nodes that are
obtained. -/
theorem Obtains.of_child {motive : Node → Prop} (h : r.Obtains m n)
    (hroot : ∀ n, r.root m = .ok n → motive n)
    (hchild : ∀ n child reference, motive n → (n.child reference).toOption = some child →
      motive child) : motive n := by
  induction h with
  | root h => exact hroot _ h
  | item _ h ih =>
    obtain ⟨reference, hfound⟩ := Node.exists_child_of_item? h
    exact hchild _ _ reference ih hfound
  | lookup _ h ih =>
    obtain ⟨reference, hfound⟩ := Node.exists_child_of_lookup? h
    exact hchild _ _ reference ih hfound
  | items _ h ih =>
    obtain ⟨reference, hfound⟩ := Node.exists_child_of_mem_items h
    exact hchild _ _ reference ih hfound
  | entries _ h ih =>
    obtain ⟨reference, hfound⟩ := Node.exists_child_of_mem_entries h
    exact hchild _ _ reference ih hfound

/-- All nodes that are obtained were checked, and belong to the used part. -/
theorem Obtains.whole (h : r.Obtains m n) : n.Whole ∧ n.arena = r.view m := by
  refine h.of_child (motive := fun n => n.Whole ∧ n.arena = r.view m) (fun n h => ?_)
    fun n child reference hn h => ?_
  · rw [Region.root, bind_eq_ok_iff] at h
    obtain ⟨a, ha, hn⟩ := h
    obtain ⟨-, -, rfl⟩ := arena_eq_ok_iff.1 ha
    obtain ⟨hwhole, harena, -⟩ := Arena.whole_of_node hn
    exact ⟨hwhole, harena⟩
  · obtain ⟨hwhole, harena⟩ := Node.whole_of_child h
    exact ⟨hwhole, harena.trans hn.2⟩

/-- A node obtained once looks the same as long as the same is seen. -/
theorem Obtains.resembles (h : r.Obtains m n) (hsame : r.SameSeen m m') :
    n.Resembles (n.onto (r.view m')) := by
  obtain ⟨hwhole, harena⟩ := h.whole
  exact Node.resembles_onto (harena ▸ hsame.sameUsed) hwhole

/-- What is obtained from one object is obtained from the other, in the same way. -/
theorem Obtains.onto (h : r.Obtains m n) (hsame : r.SameSeen m m') :
    r.Obtains m' (n.onto (r.view m')) := by
  induction h with
  | root h =>
    refine .root ?_
    rw [hsame.root_eq_map, h]
    rfl
  | @item n child hn i h ih =>
    refine ih.item (i := i) ?_
    rw [(hn.resembles hsame).item?_eq, h]
    rfl
  | @lookup n child hn key h ih =>
    have hfound : (n.onto (r.view m')).lookup? key = some (child.onto (r.view m')) := by
      rw [(hn.resembles hsame).lookup?_eq, h]
      rfl
    exact ih.lookup hfound
  | items hn h ih =>
    refine ih.items ?_
    rw [(hn.resembles hsame).items_eq]
    exact List.mem_map_of_mem h
  | @entries n child hn key h ih =>
    have hfound : (key, child.onto (r.view m')) ∈ (n.onto (r.view m')).entries := by
      rw [(hn.resembles hsame).entries_eq]
      exact List.mem_map_of_mem (f := Prod.map id (Node.onto (r.view m'))) h
    exact ih.entries hfound

/-! ## What any contents allow -/

/-- No search for an arena runs in a circle. -/
theorem acyclic_arena (r : Region) (m : Memory) : Acyclic (r.arena m) := by
  intro c h
  rw [arena] at h
  generalize used m = size at h
  simp only [bind, Except.bind, pure, Except.pure, throw, throwThe, MonadExceptOf.throw] at h
  repeat' split at h
  all_goals cases h

/-- No copy of a region runs in a circle. -/
theorem acyclic_toValue (r : Region) (m : Memory) (node : NodeId) : Acyclic (r.toValue node m) :=
  Arena.acyclic_bind (r.acyclic_arena m) fun a _ => a.acyclic_copyOut node _

/-- What a handle may do with an object of whatever contents. -/
structure Confined (r : Region) (m : Memory) : Prop where
  /-- The used part lies in the arena, and in the object. -/
  inside : ∀ a, r.arena m = .ok a →
    a = r.view m ∧ a.used ≤ r.capacity.toNat ∧ a.start + a.used ≤ m.size
  /-- What is looked at of a node lies in the used part. -/
  bounded : ∀ n, r.Obtains m n → n.arena = r.view m ∧ n.Bounded
  /-- More steps than there are entries would find nothing else. -/
  searched : ∀ n, r.Obtains m n → ∀ key steps, n.entryCount < steps →
    n.search key steps 0 n.entryCount = n.lookup? key
  /-- No chain of references has more levels than the used part has words. -/
  levels : ∀ a, r.arena m = .ok a → ∀ node offset,
    (a.copyOnce node (a.used / 8 + 1) offset).run' ∅ = a.copyOut node offset
  /-- Copying never reports references that go in circles. -/
  acyclic : (∀ node, Acyclic (r.toValue node m)) ∧
    ∀ n, r.Obtains m n → ∀ node, Acyclic (n.toValue node)
  /-- No byte outside the used part makes a difference, and none of the header besides the stage,
  the used size and the root. -/
  blind : ∀ m', r.SameSeen m m' → r.root m' = (r.root m).map (Node.onto (r.view m')) ∧
    (∀ node, r.toValue node m' = r.toValue node m) ∧
    ∀ n, r.Obtains m n → r.Obtains m' (n.onto (r.view m')) ∧ n.Resembles (n.onto (r.view m'))

/-- Whoever attached to a region is confined to the used part of its arena, whatever is written
there and in the header afterwards. -/
theorem confined_of_attach {name : String} {d d' : Directory} (h : attach name d = (.ok r, d'))
    (hsize : m.size = (d.memory r.attachment.object).size) : r.Confined m where
  inside a ha := by
    obtain ⟨-, hle, rfl⟩ := arena_eq_ok_iff.1 ha
    have hused : (used m).toNat ≤ r.capacity.toNat := UInt64.le_iff_toNat_le.1 hle
    obtain ⟨⟨found, hfound, rfl⟩, -⟩ := attach_eq_ok_iff.1 h
    exact ⟨rfl, hused, (Nat.add_le_add_left hused _).trans (hsize ▸ hfound.inside)⟩
  bounded n hn := ⟨hn.whole.2, hn.whole.1.bounded⟩
  searched n _ key _ hsteps := n.search_eq_lookup? key hsteps
  levels a _ node offset := (a.deep_used offset).copyOnce_eq node
  acyclic := ⟨r.acyclic_toValue m, fun n _ node => n.arena.acyclic_copyOut node n.offset⟩
  blind m' hsame := ⟨hsame.root_eq_map, hsame.toValue_eq,
    fun _ hn => ⟨hn.onto hsame, hn.resembles hsame⟩⟩

/-- A sequence whose first item is a null in front of it and whose second item is the sequence
itself. -/
def knotted : Memory :=
  ((((format 32 (Memory.zeros 96)).store32 stateAt RegionState.ready.code).store64 usedAt
    32).store64 rootAt 8).store 72
      (Arena.Writer.nodeBytes (.seq .vector) 2 (Arena.Writer.references [0, 8]))

/-- The sequence is walked without harm: its first item is found, its second is not, and copying it
fails for a reference that does not lead backwards. -/
theorem confined_of_attach_knotted : ∃ r : Region,
    (attach "knot" (Directory.empty.place "knot" knotted)).1 = .ok r ∧ r.Confined knotted ∧
    ∃ n child, r.root knotted = .ok n ∧ n.itemCount = 2 ∧ n.item? 0 = some child ∧
      child.isNull = true ∧ n.item? 1 = none ∧ r.Obtains knotted child ∧
      r.toValue 0 knotted = .error (.arenaCorrupt 8 .forwardReference) := by
  let d := Directory.empty.place "knot" knotted
  let r : Region := ⟨⟨0, "knot", 96, false⟩, 64, 32⟩
  have hmemory : d.memory 0 = knotted := Directory.memory_update_same ..
  have hsize : knotted.size = 96 := by decide +kernel
  have hstart : knotted.load64 arenaStartAt = 64 := by decide +kernel
  have hcapacity : knotted.load64 capacityAt = 32 := by decide +kernel
  have hheaded : Headed knotted :=
    ⟨⟨by decide +kernel, by decide +kernel, by decide +kernel⟩, by decide +kernel⟩
  have hend : outline.areaEnd knotted ≤ knotted.size := by
    simp only [outline, hstart, hcapacity, hsize]
    decide
  have hfound : d.attach "knot" = .ok ⟨0, "knot", 96, false⟩ := by
    refine Directory.attach_eq_ok_iff.2 ⟨by decide, rfl, by rfl, rfl, ?_, rfl, ?_, ?_⟩
    all_goals rw [hmemory, hsize]
    · decide
    · decide
  have hattach : attach "knot" d = (.ok r, d) := by
    refine attach_eq_ok_iff.2 ⟨⟨⟨0, "knot", 96, false⟩, ⟨hfound, ?_, trivial, ?_⟩, ?_⟩, rfl⟩
    · rwa [hmemory]
    · rwa [hmemory]
    · rw [hmemory, foundHandle, hstart, hcapacity]
  -- what is seen in the arena is computed, and told of the nodes found
  have hseen : (r.root knotted).toOption.map (fun n =>
      (n.itemCount, (n.item? 0).map (·.isNull), (n.item? 1).isNone)) =
        some (2, some true, true) := by decide +kernel
  obtain ⟨n, hn, hlooks⟩ := Option.map_eq_some_iff.1 hseen
  simp only [Prod.mk.injEq, Option.isNone_iff_eq_none] at hlooks
  obtain ⟨hcount, hfirst, hsecond⟩ := hlooks
  obtain ⟨child, hchild, hnull⟩ := Option.map_eq_some_iff.1 hfirst
  have hroot := toOption_eq_some_iff.1 hn
  have hcopied : (r.toValue 0 knotted).map (fun _ => ()) =
      .error (.arenaCorrupt 8 .forwardReference) := by decide +kernel
  have hcopy := map_eq_error_iff.1 hcopied
  refine ⟨r, congrArg Prod.fst hattach, confined_of_attach hattach ?_, n, child, hroot, hcount,
    hchild, hnull, hsecond, (Obtains.root hroot).item hchild, hcopy⟩
  show knotted.size = (d.memory 0).size
  rw [hmemory]

end Region

end SharedExchange
