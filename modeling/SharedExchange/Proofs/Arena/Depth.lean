import Mathlib.Tactic
import SharedExchange.Arena.Region
import SharedExchange.Proofs.Attaching

/-! # How far reading goes

Looking for a key halves what is left to search, so the steps that are granted never run out
(`Node.search_eq_lookup?`). Copying follows references, which lead to smaller offsets that are again
multiples of eight or lead nowhere; so no chain of them is longer than the eighth part of the used
bytes (`Arena.Deep`), and damage of any other kind may be reported, but never that references go in
circles (`Arena.acyclic_valueAt`). -/

namespace SharedExchange

/-! ## Searching -/

namespace Node

/-- One step of the search halves what is left. -/
theorem search_eq (n : Node) (key : String) (steps low high : Nat) :
    n.search key (steps + 1) low high =
      if low < high then
        match n.entry? (low + (high - low) / 2) with
        | none => none
        | some (found, value) =>
          match Utf8.order found key with
          | .eq => some value
          | .lt => n.search key steps (low + (high - low) / 2 + 1) high
          | .gt => n.search key steps low (low + (high - low) / 2)
      else none := rfl

/-- One step more than there are positions left is one too many. -/
theorem search_succ (n : Node) (key : String) {steps low high : Nat} (h : high - low < steps) :
    n.search key (steps + 1) low high = n.search key steps low high := by
  induction steps generalizing low high with
  | zero => omega
  | succ steps ih =>
    rw [search_eq n key (steps + 1) low high, search_eq n key steps low high]
    split
    · next hlt =>
      -- on either side of the middle there is less left than before
      have hright := @ih (low + (high - low) / 2 + 1) high (by omega)
      have hleft := @ih low (low + (high - low) / 2) (by omega)
      rw [hright, hleft]
    · rfl

/-- A search with steps enough is the one that looks up a key. -/
theorem search_eq_lookup? (n : Node) (key : String) {steps : Nat} (h : n.entryCount < steps) :
    n.search key steps 0 n.entryCount = n.lookup? key := by
  induction steps, h using Nat.le_induction with
  | base => rfl
  | succ steps hle ih => rw [search_succ n key (by omega), ih]

end Node

namespace Arena

variable {a : Arena} {node : NodeId} {levels offset : Nat} {n : Node}

/-! ## Levels of references -/

/-- As many levels as there are nodes that could stand in front of an offset and at it. Where no
node can stand, one level is enough to find that out. -/
structure Deep (a : Arena) (levels offset : Nat) : Prop where
  pos : 0 < levels
  div_lt : offset % 8 = 0 → offset + headerSize ≤ a.used → offset / 8 < levels

/-- The used part has no more nodes than eighths. -/
theorem deep_used (a : Arena) (offset : Nat) : a.Deep (a.used / 8 + 1) offset := by
  refine ⟨Nat.succ_pos _, fun _ hle => ?_⟩
  rw [headerSize] at hle
  omega

/-- A node has another one in front of it, so a level is left for each of its references. -/
theorem Deep.child (h : a.Deep (levels + 1) offset) (hn : a.node offset = .ok n) {reference : Nat}
    (hbefore : reference < offset) : a.Deep levels reference := by
  rw [node] at hn
  simp only [refuse_eq_ok_iff] at hn
  obtain ⟨haligned, hheader, -⟩ := hn
  have hlt := h.div_lt (not_not.1 haligned) (Nat.not_lt.1 hheader)
  have hmod := not_not.1 haligned
  exact ⟨by omega, fun hmod' _ => by omega⟩

/-- With so many levels, copying every node once finds the value at the offset. -/
theorem Deep.copyOnce_eq (h : a.Deep levels offset) (node : NodeId) :
    (a.copyOnce node levels offset).run' ∅ = a.copyOut node offset := by
  have hfollows := a.follows_copyOnce_of node a.Deep
    (fun _ hdeep => Nat.lt_irrefl 0 hdeep.pos)
    (fun _ _ _ _ hdeep hn hbefore => hdeep.child hn hbefore) h
  rw [hfollows.run'_eq, copyOut_eq_valueAt]

/-! ## No circles -/

/-- A step does not fail for references that go in circles. -/
def Acyclic {α : Type} (x : Except Fault α) : Prop :=
  ∀ offset, x ≠ .error (.arenaCorrupt offset .referenceCycle)

section

variable {α β : Type}

/-- What succeeds does not run in a circle. -/
theorem acyclic_ok (v : α) : Acyclic (.ok v : Except Fault α) := fun _ h => by cases h

/-- Steps of which none runs in a circle do not do so together. -/
theorem acyclic_bind {x : Except Fault α} {f : α → Except Fault β} (h : Acyclic x)
    (hf : ∀ v, x = .ok v → Acyclic (f v)) : Acyclic (x >>= f) := by
  cases x with
  | error fault => exact fun offset heq => h offset (congrArg Except.error (Except.error.inj heq))
  | ok v => exact hf v rfl

/-- A function of the result makes no circle. -/
theorem acyclic_map {x : Except Fault α} (h : Acyclic x) (f : α → β) : Acyclic (x.map f) := by
  cases x with
  | error fault => exact fun offset heq => h offset (congrArg Except.error (Except.error.inj heq))
  | ok v => exact acyclic_ok _

end

/-- Looking for a node runs in no circle. -/
theorem acyclic_node (a : Arena) (offset : Nat) : Acyclic (a.node offset) := by
  intro c h
  unfold node at h
  simp only [bind, Except.bind, pure, Except.pure, throw, throwThe, MonadExceptOf.throw] at h
  repeat' split at h
  all_goals cases h

/-- Looking for an item runs in no circle. -/
theorem acyclic_itemReference (n : Node) (i : Nat) : Acyclic (n.itemReference i) := by
  intro c h
  rw [Node.itemReference] at h
  repeat' split at h
  all_goals cases h

/-- Looking for a key runs in no circle. -/
theorem acyclic_keyAt (n : Node) (reference : Nat) : Acyclic (n.keyAt reference) := by
  refine acyclic_bind (acyclic_node _ _) fun found _ c h => ?_
  simp only [throw, throwThe, MonadExceptOf.throw, pure, Except.pure] at h
  split at h <;> cases h

/-- Looking for an entry runs in no circle. -/
theorem acyclic_entryReference (n : Node) (i : Nat) : Acyclic (n.entryReference i) := by
  rw [Node.entryReference]
  split
  · exact fun c h => by cases h
  · split
    · exact fun c h => by cases h
    · exact acyclic_map (acyclic_keyAt _ _) _

/-- Adding an entry to a copy runs in no circle. -/
theorem acyclic_addEntry (key : String) (v : Value) (copied : List (String × Value)) :
    Acyclic (addEntry key v copied) := by
  intro c h
  rw [addEntry] at h
  split at h <;> cases h

/-- Reading a scalar runs in no circle. -/
theorem acyclic_leafValue (n : Node) (node : NodeId) : Acyclic (leafValue n node) := by
  intro c h
  rw [leafValue] at h
  repeat' split at h
  all_goals cases h

section

variable {f : Nat → Except Fault Value}

/-- Copying items runs in no circle if nothing in front does. -/
theorem acyclic_copyItems (h : ∀ reference < n.offset, Acyclic (f reference)) (count i : Nat) :
    Acyclic (copyItems f n count i) := by
  induction count generalizing i with
  | zero => exact acyclic_ok _
  | succ count ih =>
    refine acyclic_bind (acyclic_itemReference n i) fun reference hr => ?_
    refine acyclic_bind (h reference (Node.itemReference_lt hr)) fun first _ => ?_
    exact acyclic_bind (ih (i + 1)) fun rest _ => acyclic_ok _

/-- Copying entries runs in no circle if nothing in front does. -/
theorem acyclic_copyEntries (h : ∀ reference < n.offset, Acyclic (f reference)) (count i : Nat)
    (copied : List (String × Value)) : Acyclic (copyEntries f n count i copied) := by
  induction count generalizing i copied with
  | zero => exact acyclic_ok _
  | succ count ih =>
    refine acyclic_bind (acyclic_entryReference n i) fun entry hr => ?_
    obtain ⟨key, reference⟩ := entry
    refine acyclic_bind (h reference (Node.entryReference_lt hr)) fun v _ => ?_
    exact acyclic_bind (acyclic_addEntry _ _ _) fun copied _ => ih (i + 1) copied

/-- Copying a node runs in no circle if nothing in front does. -/
theorem acyclic_copyNode (h : ∀ reference < n.offset, Acyclic (f reference)) (node : NodeId) :
    Acyclic (copyNode f node n) := by
  rw [copyNode]
  split
  · exact acyclic_bind (acyclic_copyItems h _ _) fun _ _ => acyclic_ok _
  · exact acyclic_bind (acyclic_copyEntries h _ _ _) fun _ _ => acyclic_ok _
  · exact acyclic_leafValue n node

end

/-- Whatever the bytes are, following the references from an offset comes to an end. -/
theorem acyclic_valueAt (a : Arena) (node : NodeId) (offset : Nat) :
    Acyclic (a.valueAt node offset) := by
  induction offset using Nat.strongRecOn with
  | ind offset ih =>
    rw [valueAt_eq]
    refine acyclic_bind (acyclic_node a offset) fun n hn => ?_
    exact acyclic_copyNode (fun reference hlt => ih reference (offset_of_node hn ▸ hlt)) node

/-- No copy of a value runs in a circle, whatever the arena holds. -/
theorem acyclic_copyOut (a : Arena) (node : NodeId) (offset : Nat) :
    Acyclic (a.copyOut node offset) :=
  a.copyOut_eq_valueAt node offset ▸ a.acyclic_valueAt node offset

end Arena

end SharedExchange
