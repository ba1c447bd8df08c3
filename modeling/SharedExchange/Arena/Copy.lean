import Std.Data.TreeMap
import SharedExchange.Arena.Node
import SharedExchange.Value.Edit

/-! # Copying a value out of an arena

The copy of the node at offset `i` is the node `node + i`, so two places of the copy share a node
exactly when they do in the arena. Unlike the accessors of a `Node`, copying reports damage.

* `valueAt` is the value at an offset, by recursion along the references, which lead backwards.
* `copyOut` finds it, copying a node only once however many references lead there, so that it takes
  no longer than the arena is large. `copyOut_eq_valueAt` says that the two agree. -/

namespace SharedExchange

namespace Node

/-- The reference to an item, which leads backwards. -/
def itemReference (n : Node) (i : Nat) : Except Fault Nat :=
  match n.arena.word? (n.payload + 8 * i) with
  | none => .error (.arenaCorrupt n.offset .childOutside)
  | some reference =>
    if n.offset ≤ reference then .error (.arenaCorrupt reference .forwardReference)
    else .ok reference

/-- The key at a place that an entry refers to. -/
def keyAt (n : Node) (reference : Nat) : Except Fault String := do
  match (← n.arena.node reference).toText? with
  | none => throw (.arenaCorrupt reference .keyNotText)
  | some key => return key

/-- The key of an entry and the reference to its value, which leads backwards. -/
def entryReference (n : Node) (i : Nat) : Except Fault (String × Nat) :=
  match n.entryReferences? i with
  | none => .error (.arenaCorrupt n.offset .entryOutside)
  | some (keyReference, valueReference) =>
    if n.offset ≤ keyReference ∨ n.offset ≤ valueReference then
      .error (.arenaCorrupt n.offset .forwardReference)
    else (n.keyAt keyReference).map fun key => (key, valueReference)

/-- The items of a node lie in front of it. -/
theorem itemReference_lt {n : Node} {i reference : Nat} (h : n.itemReference i = .ok reference) :
    reference < n.offset := by
  unfold itemReference at h
  split at h
  · cases h
  · split at h
    · cases h
    · cases h
      omega

/-- The keys and values of a node lie in front of it. -/
theorem entryReference_lt {n : Node} {i reference : Nat} {key : String}
    (h : n.entryReference i = .ok (key, reference)) : reference < n.offset := by
  unfold entryReference at h
  split at h
  · cases h
  · split at h
    · cases h
    · cases hk : n.keyAt _ with
      | error fault => rw [hk] at h; cases h
      | ok found => rw [hk] at h; cases h; omega

end Node

namespace Arena

/-! ## Copying one node

What it takes to copy a node is said for any way of copying its children. -/

section

variable {m : Type → Type} [Monad m] [MonadLiftT (Except Fault) m]

/-- Copy `count` items from position `i` on. -/
@[specialize] def copyItems (copy : Nat → m Value) (n : Node) : (count i : Nat) → m (List Value)
  | 0, _ => pure []
  | count + 1, i => do
    let reference ← liftM (n.itemReference i)
    let first ← copy reference
    let rest ← copyItems copy n count (i + 1)
    return first :: rest

/-- Add an entry whose key is new. -/
def addEntry (key : String) (v : Value) (copied : List (String × Value)) :
    Except Fault (List (String × Value)) :=
  if (copied.lookup key).isSome then .error (.keyRepeated key)
  else .ok (Value.insertEntry key v copied)

/-- Add `count` entries from position `i` on to those already copied, each key once. -/
@[specialize] def copyEntries (copy : Nat → m Value) (n : Node) :
    (count i : Nat) → List (String × Value) → m (List (String × Value))
  | 0, _, copied => pure copied
  | count + 1, i, copied => do
    let (key, reference) ← liftM (n.entryReference i)
    let v ← copy reference
    let copied ← liftM (addEntry key v copied)
    copyEntries copy n count (i + 1) copied

/-- The value in a node that refers to no other. -/
def leafValue (n : Node) (node : NodeId) : Except Fault Value :=
  match n.kind with
  | .bool => .ok (.bool (n.word != 0))
  | .integer kind => .ok (.integer kind (kind.ofWord (UInt64.ofNat n.word)))
  | .float32 => .ok (.float32 (UInt32.ofNat n.word))
  | .float64 => .ok (.float64 (UInt64.ofNat n.word))
  | .text =>
    match n.toText? with
    | none => .error (.arenaCorrupt n.offset .textNotUtf8)
    | some s => .ok (.text (node + n.offset) s)
  | .floats shape => .ok (.floats shape (Vector.ofFn fun i => n.component i))
  | .null | .seq _ | .dict _ => .ok .null

/-- Copy a node, its children by `copy`. -/
@[specialize] def copyNode (copy : Nat → m Value) (node : NodeId) (n : Node) : m Value :=
  match n.kind with
  | .seq kind => do
    let items ← copyItems copy n n.length 0
    return .seq kind (node + n.offset) items
  | .dict kind => do
    let entries ← copyEntries copy n n.length 0 []
    return .dict kind (node + n.offset) entries
  | _ => liftM (leafValue n node)

end

/-! ## The value at an offset -/

/-- The value at an offset, with references followed for fewer than `levels` levels. -/
def copy (a : Arena) (node : NodeId) : (levels offset : Nat) → Except Fault Value
  | 0, offset => .error (.arenaCorrupt offset .referenceCycle)
  | levels + 1, offset => do
    let n ← a.node offset
    copyNode (copy a node levels) node n

/-- The value at an offset. As references lead backwards, no chain of them is longer than the
offset. -/
def valueAt (a : Arena) (node : NodeId) (offset : Nat) : Except Fault Value :=
  a.copy node (offset + 1) offset

/-- A node is read where it was looked for. -/
theorem offset_of_node {a : Arena} {offset : Nat} {n : Node} (h : a.node offset = .ok n) :
    n.offset = offset := by
  unfold node at h
  simp only [bind, Except.bind, pure, Except.pure, throw, throwThe, MonadExceptOf.throw] at h
  repeat' split at h
  all_goals first
    | cases h; rfl
    | cases h

/-- Items are copied by what is known of the nodes in front. -/
theorem copyItems_congr {f g : Nat → Except Fault Value} {n : Node}
    (h : ∀ reference < n.offset, f reference = g reference) (count i : Nat) :
    copyItems f n count i = copyItems g n count i := by
  induction count generalizing i with
  | zero => rfl
  | succ count ih =>
    simp only [copyItems, ih]
    cases hr : n.itemReference i with
    | error fault => rfl
    | ok reference =>
      change (f reference >>= _) = (g reference >>= _)
      rw [h reference (Node.itemReference_lt hr)]

/-- Entries are copied by what is known of the nodes in front. -/
theorem copyEntries_congr {f g : Nat → Except Fault Value} {n : Node}
    (h : ∀ reference < n.offset, f reference = g reference) (count i : Nat)
    (copied : List (String × Value)) :
    copyEntries f n count i copied = copyEntries g n count i copied := by
  induction count generalizing i copied with
  | zero => rfl
  | succ count ih =>
    simp only [copyEntries, ih]
    cases hr : n.entryReference i with
    | error fault => rfl
    | ok entry =>
      obtain ⟨key, reference⟩ := entry
      change (f reference >>= _) = (g reference >>= _)
      rw [h reference (Node.entryReference_lt hr)]

/-- Copying a node looks at its children only. -/
theorem copyNode_congr {f g : Nat → Except Fault Value} {n : Node}
    (h : ∀ reference < n.offset, f reference = g reference) (node : NodeId) :
    copyNode f node n = copyNode g node n := by
  unfold copyNode
  split
  · rw [copyItems_congr h]
  · rw [copyEntries_congr h]
  · rfl

/-- As many levels as the offset are enough. -/
theorem copy_of_lt (a : Arena) (node : NodeId) {levels offset : Nat} (h : offset < levels) :
    a.copy node levels offset = a.valueAt node offset := by
  induction offset using Nat.strongRecOn generalizing levels with
  | ind offset ih =>
    obtain ⟨levels, rfl⟩ : ∃ k, levels = k + 1 := ⟨levels - 1, by omega⟩
    simp only [valueAt, copy]
    cases hn : a.node offset with
    | error fault => rfl
    | ok n =>
      have ho := offset_of_node hn
      change copyNode _ node n = copyNode _ node n
      apply copyNode_congr
      intro reference hr
      rw [ih reference (by omega) (by omega), ih reference (by omega) (by omega)]

/-- The value at an offset is its node with the values at the references. -/
theorem valueAt_eq (a : Arena) (node : NodeId) (offset : Nat) :
    a.valueAt node offset = a.node offset >>= copyNode (a.valueAt node) node := by
  simp only [valueAt, copy]
  cases hn : a.node offset with
  | error fault => rfl
  | ok n =>
    have ho := offset_of_node hn
    change copyNode _ node n = copyNode _ node n
    apply copyNode_congr
    intro reference hr
    exact a.copy_of_lt node (by omega)

/-! ## Copying every node once -/

/-- The copies made so far, by offset. -/
abbrev Copies := Std.TreeMap Nat Value

/-- Copying that remembers its copies. -/
abbrev Copying := StateT Copies (Except Fault)

/-- The value at an offset, copied unless it has been before. -/
def copyOnce (a : Arena) (node : NodeId) : (levels offset : Nat) → Copying Value
  | 0, offset => liftM (m := Except Fault) (.error (.arenaCorrupt offset .referenceCycle))
  | levels + 1, offset => do
    match (← get)[offset]? with
    | some v => return v
    | none =>
      let n ← liftM (a.node offset)
      let v ← copyNode (copyOnce a node levels) node n
      modify fun copies => copies.insert offset v
      return v

/-- The value at an offset. -/
def copyOut (a : Arena) (node : NodeId) (offset : Nat) : Except Fault Value :=
  (a.copyOnce node (offset + 1) offset).run' ∅

/-- All copies are those of what they were made from. -/
def Copies.Right (a : Arena) (node : NodeId) (copies : Copies) : Prop :=
  ∀ offset v, copies[offset]? = some v → a.valueAt node offset = .ok v

/-- Beginning with right copies, `y` has the outcome `x` and leaves right copies. -/
def Follows (a : Arena) (node : NodeId) {α : Type} (x : Except Fault α) (y : Copying α) : Prop :=
  ∀ copies : Copies, copies.Right a node →
    ∃ after : Copies, after.Right a node ∧ y.run copies = x.map fun v => (v, after)

section

variable {a : Arena} {node : NodeId}

/-- A value at hand is copied once. -/
theorem follows_pure {α : Type} (v : α) : Follows a node (pure v) (pure v) :=
  fun copies h => ⟨copies, h, rfl⟩

/-- A step that copies nothing is the same in both ways of copying. -/
theorem follows_lift {α : Type} (x : Except Fault α) :
    Follows a node x (liftM (n := Copying) x) := by
  intro copies h
  refine ⟨copies, h, ?_⟩
  cases x <;> rfl

/-- What follows step by step follows as a whole. -/
theorem follows_bind {α β : Type} {x : Except Fault α} {y : Copying α}
    {f : α → Except Fault β} {g : α → Copying β} (h : Follows a node x y)
    (hf : ∀ v, x = .ok v → Follows a node (f v) (g v)) : Follows a node (x >>= f) (y >>= g) := by
  intro copies hc
  obtain ⟨after, ha, hy⟩ := h copies hc
  rw [StateT.run_bind, hy]
  cases x with
  | error fault => exact ⟨copies, hc, rfl⟩
  | ok v =>
    obtain ⟨final, hfinal, hg⟩ := hf v rfl after ha
    exact ⟨final, hfinal, hg⟩

variable {f : Nat → Except Fault Value} {g : Nat → Copying Value} {n : Node}

/-- Items are copied once if what is in front is. -/
theorem follows_copyItems (h : ∀ reference < n.offset, Follows a node (f reference) (g reference))
    (count i : Nat) : Follows a node (copyItems f n count i) (copyItems g n count i) := by
  induction count generalizing i with
  | zero => exact follows_pure _
  | succ count ih =>
    refine follows_bind (follows_lift _) fun reference hr => ?_
    refine follows_bind (h reference (Node.itemReference_lt hr)) fun first _ => ?_
    exact follows_bind (ih (i + 1)) fun rest _ => follows_pure _

/-- Entries are copied once if what is in front is. -/
theorem follows_copyEntries
    (h : ∀ reference < n.offset, Follows a node (f reference) (g reference)) (count i : Nat)
    (copied : List (String × Value)) :
    Follows a node (copyEntries f n count i copied) (copyEntries g n count i copied) := by
  induction count generalizing i copied with
  | zero => exact follows_pure _
  | succ count ih =>
    refine follows_bind (follows_lift _) fun entry hr => ?_
    obtain ⟨key, reference⟩ := entry
    refine follows_bind (h reference (Node.entryReference_lt hr)) fun v _ => ?_
    exact follows_bind (follows_lift _) fun copied _ => ih (i + 1) copied

/-- A node is copied once if what is in front of it is. -/
theorem follows_copyNode
    (h : ∀ reference < n.offset, Follows a node (f reference) (g reference)) :
    Follows a node (copyNode f node n) (copyNode g node n) := by
  unfold copyNode
  split
  · exact follows_bind (follows_copyItems h _ _) fun _ _ => follows_pure _
  · exact follows_bind (follows_copyEntries h _ _ _) fun _ _ => follows_pure _
  · exact follows_lift _

end

/-- A copy that was kept is the value at its offset. -/
theorem Copies.right_insert {a : Arena} {node : NodeId} {copies : Copies} {offset : Nat} {v : Value}
    (h : copies.Right a node) (hv : a.valueAt node offset = .ok v) :
    Copies.Right a node (copies.insert offset v) := by
  intro other w hw
  rw [Std.TreeMap.getElem?_insert] at hw
  split at hw
  · next he =>
    cases hw
    rwa [← Std.LawfulEqCmp.compare_eq_iff_eq.1 he]
  · exact h other w hw

/-- A run of `copyOnce` looks for a copy first, and adds the one that it makes. -/
theorem run_copyOnce (a : Arena) (node : NodeId) (levels offset : Nat) (copies : Copies) :
    (a.copyOnce node (levels + 1) offset).run copies =
      match copies[offset]? with
      | some v => .ok (v, copies)
      | none =>
        (StateT.run (do
          let n ← liftM (n := Copying) (a.node offset)
          copyNode (copyOnce a node levels) node n) copies).map fun (v, after) =>
            (v, after.insert offset v) := by
  have hget : (a.copyOnce node (levels + 1) offset).run copies =
      StateT.run (match copies[offset]? with
        | some v => pure v
        | none => do
          let n ← liftM (n := Copying) (a.node offset)
          let v ← copyNode (copyOnce a node levels) node n
          modify fun copies => copies.insert offset v
          return v) copies := rfl
  rw [hget]
  cases copies[offset]? with
  | some v => rfl
  | none =>
    simp only [StateT.run_bind]
    cases hn : StateT.run (liftM (n := Copying) (a.node offset)) copies with
    | error fault => rfl
    | ok found =>
      change StateT.run (copyNode _ node found.1) found.2 >>= _ =
        Except.map _ (StateT.run (copyNode _ node found.1) found.2)
      cases StateT.run (copyNode (copyOnce a node levels) node found.1) found.2 <;> rfl

/-- `enough levels offset` may be any condition that rules out no levels, and that holds for the
references of a node with one level less. -/
theorem follows_copyOnce_of (a : Arena) (node : NodeId) (enough : Nat → Nat → Prop)
    (hzero : ∀ offset, ¬enough 0 offset)
    (hchild : ∀ levels offset n reference, enough (levels + 1) offset → a.node offset = .ok n →
      reference < offset → enough levels reference)
    {levels offset : Nat} (h : enough levels offset) :
    Follows a node (a.valueAt node offset) (a.copyOnce node levels offset) := by
  induction levels generalizing offset with
  | zero => exact absurd h (hzero offset)
  | succ levels ih =>
    intro copies hc
    rw [run_copyOnce]
    cases hv : copies[offset]? with
    | some v => exact ⟨copies, hc, by rw [hc offset v hv]; rfl⟩
    | none =>
      have hnode : Follows a node (a.valueAt node offset) (do
          let n ← liftM (a.node offset)
          copyNode (copyOnce a node levels) node n) := by
        rw [valueAt_eq]
        refine follows_bind (follows_lift _) fun n hn => ?_
        have ho := offset_of_node hn
        exact follows_copyNode fun reference hr =>
          ih (hchild levels offset n reference h hn (by omega))
      obtain ⟨after, ha, hrun⟩ := hnode copies hc
      rw [hrun]
      cases hx : a.valueAt node offset with
      | error fault => exact ⟨copies, hc, rfl⟩
      | ok v => exact ⟨after.insert offset v, Copies.right_insert ha hx, rfl⟩

/-- Copying once gives what copying at every sight gives. -/
theorem follows_copyOnce (a : Arena) (node : NodeId) {levels offset : Nat} (h : offset < levels) :
    Follows a node (a.valueAt node offset) (a.copyOnce node levels offset) :=
  a.follows_copyOnce_of node (fun levels offset => offset < levels)
    (fun offset => Nat.not_lt_zero offset) (fun _ _ _ _ hlt _ hr => by omega) h

/-- Without any copies to begin with, only the outcome is seen. -/
theorem Follows.run'_eq {a : Arena} {node : NodeId} {α : Type} {x : Except Fault α} {y : Copying α}
    (h : Follows a node x y) : y.run' ∅ = x := by
  have hempty : Copies.Right a node ∅ := by
    intro offset v h
    simp at h
  obtain ⟨after, -, hrun⟩ := h ∅ hempty
  rw [StateT.run'] at *
  rw [StateT.run] at hrun
  rw [hrun]
  cases x <;> rfl

/-- Copying every node once finds the value at the offset. -/
theorem copyOut_eq_valueAt (a : Arena) (node : NodeId) (offset : Nat) :
    a.copyOut node offset = a.valueAt node offset :=
  (a.follows_copyOnce node (Nat.lt_succ_self offset)).run'_eq

end Arena

/-- The value that a node stands for. -/
def Node.toValue (n : Node) (node : NodeId) : Except Fault Value := n.arena.copyOut node n.offset

end SharedExchange
