import Mathlib.Tactic
import SharedExchange.Proofs.Arena.Building
import SharedExchange.Proofs.Arena.Footprint
import SharedExchange.Proofs.Arena.Stepping

/-! # Nodes that fill an arena

A `Tile` is a node together with what it was written for (`Origin`): a value, wherever it occurs, or
the key of an entry. In a `Tiling` the nodes lie one behind the other without a gap, each refers to
nodes in front of it that were written for what it is made of, and no two were written for one node
of the value seen under one kind.

References that are not in a node yet are kept beside the nodes. A node that is added takes its
references from them and leaves its own offset there (`Tiling.snoc`); when it is met again its
offset is left once more (`Tiling.meet`). At the end the only reference left is that to the root,
which is why the root is the last node (`Tiling.exists_last`). -/

namespace SharedExchange

namespace Node

/-- Where the node ends. -/
def stop (n : Node) : Nat := n.payload + Arena.payloadRoom n.kind n.length

/-- The references in the payload: one for each item, two for each entry. -/
def references (n : Node) : List Nat :=
  (List.range (n.itemCount + 2 * n.entryCount)).filterMap fun i => n.arena.word? (n.payload + 8 * i)

end Node

/-- What a node of an arena is written for. -/
inductive Origin where
  /-- A value, wherever it occurs. -/
  | part (v : Value)
  /-- The key of an entry. -/
  | key (s : String)

namespace Origin

/-- What the node shows: a key is a text. -/
def value : Origin → Value
  | part v => v
  | key s => .text 0 s

/-- The number of the node seen under its kind. Scalars have none, and neither have keys. -/
def shareKey? : Origin → Option Nat
  | part v => v.shareKey?
  | key _ => none

/-- What the node refers to, in the order of its references. -/
def children : Origin → List Origin
  | part (.seq _ _ items) => items.map part
  | part (.dict _ _ entries) => entries.flatMap fun entry => [key entry.1, part entry.2]
  | _ => []

/-- Whether the node was written for an occurrence of the same node of the value. -/
def sameNode (p : Value) : Origin → Bool
  | part v => v.sameNode p
  | key _ => false

/-- An origin is the same node as a value when both are shared and have the same key. -/
theorem sameNode_iff {o : Origin} {p : Value} :
    o.sameNode p = true ↔ p.shareKey?.isSome ∧ o.shareKey? = p.shareKey? := by
  cases o with
  | part v =>
    rw [sameNode, Value.sameNode_iff, shareKey?]
    exact ⟨fun ⟨hsome, heq⟩ => ⟨heq ▸ hsome, heq⟩, fun ⟨hsome, heq⟩ => ⟨heq ▸ hsome, heq⟩⟩
  | key s =>
    cases hp : p.shareKey? <;> simp [sameNode, shareKey?]

end Origin

/-- A node and what it was written for. -/
structure Tile where
  node : Node
  origin : Origin

namespace Arena

open Writer (references)

/-! ## The references of a node -/

/-- An origin has as many children as its node has references. -/
theorem length_children (o : Origin) : o.children.length = o.value.referenceCount := by
  cases o with
  | key s => rfl
  | part v =>
    cases v with
    | seq kind node items => exact List.length_map _
    | dict kind node entries =>
      simp [Origin.children, Origin.value, Value.referenceCount, List.length_flatMap, Nat.mul_comm]
    | _ => rfl

section

variable {a : Arena} {offset : Nat} {offsets : List Nat}

/-- The references of a container are read one by one. -/
theorem Written.references_eq {n : Node} {kind : Kind} {length : Nat} (hn : n.arena = a)
    (hoffset : n.offset = offset) (hcount : n.itemCount + 2 * n.entryCount = offsets.length)
    (h : Written a offset kind length (references offsets))
    (hbound : ∀ reference ∈ offsets, reference < UInt64.size) : n.references = offsets := by
  have hword : ∀ i (hi : i < offsets.length),
      n.arena.word? (n.payload + 8 * i) = some offsets[i] := by
    intro i hi
    rw [hn, Node.payload, hoffset]
    exact h.word?_eq hbound i hi
  have hsome : ∀ i < offsets.length, (n.arena.word? (n.payload + 8 * i)).isSome :=
    fun i hi => Option.isSome_of_eq_some (hword i hi)
  obtain ⟨hlength, hget⟩ := filterMap_range hsome
  rw [Node.references, hcount]
  exact List.ext_getElem hlength fun i hi hi' =>
    Option.some.inj ((hget i hi).symm.trans (hword i hi'))

/-- A written node is found, with its end and its references. -/
theorem Written.exists_tile {o : Origin}
    (h : Written a offset o.value.kind o.value.nodeLength (payloadOf offsets o.value))
    (hfits : o.value.Fits) (hlength : offsets.length = o.value.referenceCount)
    (hbound : ∀ reference ∈ offsets, reference < UInt64.size) :
    a.node offset = .ok (nodeOf a offset o.value) ∧
      (nodeOf a offset o.value).references = offsets ∧
      (nodeOf a offset o.value).stop =
        offset + (headerSize + padded (payloadOf offsets o.value).length) := by
  refine ⟨h.nodeOf_eq hfits hlength, ?_, ?_⟩
  · generalize o.value = v at h hlength ⊢
    cases v with
    | seq kind node items => exact h.references_eq rfl rfl hlength.symm hbound
    | dict kind node entries =>
      exact h.references_eq rfl rfl ((Nat.zero_add _).trans hlength.symm) hbound
    | _ =>
      obtain rfl := List.length_eq_zero_iff.1 hlength
      rfl
  · rw [← payloadRoom_eq hlength, ← Nat.add_assoc]
    rfl

end

/-! ## Nodes without a gap -/

/-- Nodes from `start` to `stop`, each at a multiple of eight where the one before it ends. -/
def Adjoin (a : Arena) : Nat → List Tile → Nat → Prop
  | start, [], stop => start = stop
  | start, t :: tiles, stop =>
    start % 8 = 0 ∧ a.node start = .ok t.node ∧ Adjoin a t.node.stop tiles stop

variable {a : Arena} {start stop reference : Nat} {tiles tiles' : List Tile} {t t' : Tile}
  {offsets pending : List Nat} {origins : List Origin}

namespace Adjoin

/-- A node is added at the end. -/
theorem concat (h : Adjoin a start tiles stop) (haligned : stop % 8 = 0)
    (hnode : a.node stop = .ok t.node) : Adjoin a start (tiles ++ [t]) t.node.stop := by
  induction tiles generalizing start with
  | nil =>
    obtain rfl : start = stop := h
    exact ⟨haligned, hnode, rfl⟩
  | cons first tiles ih => exact ⟨h.1, h.2.1, ih h.2.2⟩

/-- Every node takes its header at least. -/
theorem le (h : Adjoin a start tiles stop) : start + headerSize * tiles.length ≤ stop := by
  induction tiles generalizing start with
  | nil => exact Nat.le_of_eq h
  | cons t tiles ih =>
    obtain ⟨-, hnode, hrest⟩ := h
    have hle := ih hrest
    obtain ⟨-, -, hoffset⟩ := whole_of_node hnode
    rw [Node.stop, Node.payload, hoffset] at hle
    rw [List.length_cons, Nat.mul_succ]
    omega

/-- A node stands where it is found, between the first start and the last end. -/
theorem node_eq (h : Adjoin a start tiles stop) (ht : t ∈ tiles) :
    a.node t.node.offset = .ok t.node ∧ start ≤ t.node.offset ∧ t.node.offset < stop := by
  induction tiles generalizing start with
  | nil => cases ht
  | cons first tiles ih =>
    obtain ⟨-, hnode, hrest⟩ := h
    obtain ⟨-, -, hoffset⟩ := whole_of_node hnode
    have hle := hrest.le
    have hmore : first.node.offset + headerSize ≤ first.node.stop := Nat.le_add_right ..
    rw [headerSize] at hmore
    rcases List.mem_cons.1 ht with rfl | ht
    · exact ⟨hoffset ▸ hnode, by omega, by omega⟩
    · obtain ⟨hfound, hfrom, hto⟩ := ih hrest ht
      exact ⟨hfound, by omega, hto⟩

/-- Tiles that adjoin come in the order of their offsets. -/
theorem pairwise (h : Adjoin a start tiles stop) :
    tiles.Pairwise fun t t' => t.node.offset < t'.node.offset := by
  induction tiles generalizing start with
  | nil => exact .nil
  | cons first tiles ih =>
    obtain ⟨-, hnode, hrest⟩ := h
    refine .cons (fun t ht => ?_) (ih hrest)
    obtain ⟨-, hfrom, -⟩ := hrest.node_eq ht
    rw [Node.stop, Node.payload, headerSize] at hfrom
    omega

/-- Where one node starts, no other does. -/
theorem eq_of_offset (h : Adjoin a start tiles stop) (ht : t ∈ tiles) (ht' : t' ∈ tiles)
    (heq : t.node.offset = t'.node.offset) : t = t' := by
  have hnodup : (tiles.map fun t => t.node.offset).Nodup :=
    List.pairwise_map.2 (h.pairwise.imp fun hlt => Nat.ne_of_lt hlt)
  exact List.inj_on_of_nodup_map hnodup ht ht' heq

end Adjoin

/-! ## References to nodes -/

/-- References that lead to nodes of these origins, in their order. -/
def Targets (tiles : List Tile) : List Nat → List Origin → Prop :=
  List.Forall₂ fun reference o => ∃ t ∈ tiles, t.origin = o ∧ t.node.offset = reference

/-- Targets among tiles are targets among more of them. -/
theorem Targets.mono (h : Targets tiles offsets origins) (hsub : tiles ⊆ tiles') :
    Targets tiles' offsets origins :=
  h.imp fun _ _ ⟨t, ht, horigin, hoffset⟩ => ⟨t, hsub ht, horigin, hoffset⟩

/-- Every target is a tile. -/
theorem Targets.exists_tile (h : Targets tiles offsets origins) (hmem : reference ∈ offsets) :
    ∃ t ∈ tiles, t.node.offset = reference := by
  obtain ⟨i, hi, rfl⟩ := List.getElem_of_mem hmem
  obtain ⟨t, ht, -, hoffset⟩ := h.get hi (h.length_eq ▸ hi)
  exact ⟨t, ht, hoffset⟩

/-- All references in nodes. -/
def slots (tiles : List Tile) : List Nat := tiles.flatMap fun t => t.node.references

/-- A further tile adds the slots of its references. -/
theorem slots_concat (tiles : List Tile) (t : Tile) :
    slots (tiles ++ [t]) = slots tiles ++ t.node.references := by
  rw [slots, slots, List.flatMap_append, List.flatMap_singleton]

/-- The numbers of the nodes of a value, as far as they were written. -/
def shareKeys (tiles : List Tile) : List Nat := tiles.filterMap fun t => t.origin.shareKey?

/-- The shared keys are those of the tiles. -/
theorem mem_shareKeys {k : Nat} :
    k ∈ shareKeys tiles ↔ ∃ t ∈ tiles, t.origin.shareKey? = some k := List.mem_filterMap

/-- A further tile adds its shared key, if it has one. -/
theorem shareKeys_concat (tiles : List Tile) (t : Tile) :
    shareKeys (tiles ++ [t]) = shareKeys tiles ++ t.origin.shareKey?.toList := by
  rw [shareKeys, shareKeys, List.filterMap_append]
  cases hk : t.origin.shareKey? <;> simp [hk]

/-! ## Tilings -/

/-- Nodes that fill an arena up to `stop`, while some of the references to them are still to be
stored in a node. -/
structure Tiling (a : Arena) (stop : Nat) (tiles : List Tile) (pending : List Nat) : Prop where
  adjoin : Adjoin a 0 tiles stop
  /-- The header of a node says what it was written for. -/
  header : ∀ t ∈ tiles, t.node = nodeOf a t.node.offset t.origin.value
  /-- References lead backwards, -/
  before : ∀ t ∈ tiles, ∀ reference ∈ t.node.references, reference < t.node.offset
  /-- to nodes that were written for what the node is made of. -/
  targets : ∀ t ∈ tiles, Targets tiles t.node.references t.origin.children
  /-- No two nodes were written for one node of the value seen under one kind. -/
  once : (shareKeys tiles).Nodup
  /-- There is a reference to every node, and to nothing else. -/
  mem_iff : ∀ offset, offset ∈ slots tiles ++ pending ↔ ∃ t ∈ tiles, t.node.offset = offset
  /-- For scalars and keys a node is written each time, so there is only one reference to it. -/
  single : ∀ t ∈ tiles, t.origin.shareKey? = none →
    (slots tiles ++ pending).count t.node.offset = 1

namespace Tiling

/-- Nothing was written. -/
theorem nil (a : Arena) : Tiling a 0 [] [] where
  adjoin := rfl
  header t ht := by cases ht
  before t ht := by cases ht
  targets t ht := by cases ht
  once := List.nodup_nil
  mem_iff offset := by simp [slots]
  single t ht := by cases ht

/-- A node that is added behind the others takes its references from those to be stored. -/
theorem snoc (h : Tiling a stop tiles (pending ++ offsets)) (haligned : stop % 8 = 0)
    (hnode : a.node stop = .ok t.node) (hheader : t.node = nodeOf a stop t.origin.value)
    (hreferences : t.node.references = offsets)
    (htargets : Targets tiles offsets t.origin.children)
    (hnew : ∀ k, t.origin.shareKey? = some k → k ∉ shareKeys tiles) :
    Tiling a t.node.stop (tiles ++ [t]) (pending ++ [stop]) := by
  obtain ⟨-, -, hoffset⟩ := whole_of_node hnode
  have hsub : tiles ⊆ tiles ++ [t] := List.subset_append_left ..
  have hlt : ∀ reference ∈ slots tiles ++ (pending ++ offsets), reference < stop := by
    intro reference hmem
    obtain ⟨t', ht', rfl⟩ := (h.mem_iff reference).1 hmem
    exact (h.adjoin.node_eq ht').2.2
  -- the same references as before, and the new one
  have hperm : (slots (tiles ++ [t]) ++ (pending ++ [stop])).Perm
      (stop :: (slots tiles ++ (pending ++ offsets))) := by
    rw [slots_concat, hreferences, List.append_assoc, ← List.append_assoc, ← List.append_assoc]
    refine (List.perm_append_singleton stop _).trans (List.Perm.cons stop ?_)
    rw [List.append_assoc]
    exact List.perm_append_comm.append_left _
  refine ⟨h.adjoin.concat haligned hnode, ?_, ?_, ?_, ?_, ?_, ?_⟩
  · intro t' ht'
    rcases List.mem_append.1 ht' with ht' | ht'
    · exact h.header t' ht'
    · rw [List.mem_singleton.1 ht', hoffset, ← hheader]
  · intro t' ht'
    rcases List.mem_append.1 ht' with ht' | ht'
    · exact h.before t' ht'
    · rw [List.mem_singleton.1 ht', hreferences, hoffset]
      exact fun reference hmem => hlt reference (by simp [hmem])
  · intro t' ht'
    rcases List.mem_append.1 ht' with ht' | ht'
    · exact (h.targets t' ht').mono hsub
    · rw [List.mem_singleton.1 ht', hreferences]
      exact htargets.mono hsub
  · rw [shareKeys_concat]
    cases hk : t.origin.shareKey? with
    | none => exact (List.append_nil _).symm ▸ h.once
    | some k =>
      exact (List.perm_append_singleton k _).nodup_iff.2 (List.nodup_cons.2 ⟨hnew k hk, h.once⟩)
  · intro offset
    rw [hperm.mem_iff, List.mem_cons, h.mem_iff]
    constructor
    · rintro (rfl | ⟨t', ht', heq⟩)
      · exact ⟨t, List.mem_append_right _ List.mem_cons_self, hoffset⟩
      · exact ⟨t', hsub ht', heq⟩
    · rintro ⟨t', ht', rfl⟩
      rcases List.mem_append.1 ht' with ht' | ht'
      · exact .inr ⟨t', ht', rfl⟩
      · exact .inl (List.mem_singleton.1 ht' ▸ hoffset)
  · intro t' ht' hnone
    rw [hperm.count_eq, List.count_cons]
    rcases List.mem_append.1 ht' with ht' | ht'
    · have hbefore := (h.adjoin.node_eq ht').2.2
      rw [h.single t' ht' hnone, if_neg (by simpa using (Nat.ne_of_gt hbefore))]
    · rw [List.mem_singleton.1 ht', hoffset, List.count_eq_zero_of_not_mem
        fun hmem => Nat.lt_irrefl _ (hlt stop hmem), if_pos (beq_self_eq_true _)]

/-- A node that is met again is referred to once more. -/
theorem meet (h : Tiling a stop tiles pending) (ht : t ∈ tiles) {k : Nat}
    (hk : t.origin.shareKey? = some k) : Tiling a stop tiles (pending ++ [t.node.offset]) := by
  refine ⟨h.adjoin, h.header, h.before, h.targets, h.once, fun offset => ?_, fun t' ht' hnone => ?_⟩
  · rw [← List.append_assoc, List.mem_append, List.mem_singleton, h.mem_iff]
    exact ⟨fun hmem => hmem.elim id fun heq => ⟨t, ht, heq.symm⟩, .inl⟩
  · rw [← List.append_assoc, List.count_append, h.single t' ht' hnone, List.count_singleton,
      if_neg]
    intro heq
    -- a node without a number is another one
    rw [h.adjoin.eq_of_offset ht ht' (beq_iff_eq.1 heq), hnone] at hk
    cases hk

/-- The only node to which no other refers is the last one. -/
theorem exists_last (h : Tiling a stop tiles [reference]) :
    ∃ t, tiles.getLast? = some t ∧ t.node.offset = reference := by
  obtain ⟨t, ht, -⟩ := (h.mem_iff reference).1 (List.mem_append_right _ List.mem_cons_self)
  obtain ⟨front, last, rfl⟩ := (List.eq_nil_or_concat' tiles).resolve_left (List.ne_nil_of_mem ht)
  refine ⟨last, List.getLast?_concat, ?_⟩
  have hlast : last ∈ front ++ [last] := List.mem_append_right _ List.mem_cons_self
  rcases List.mem_append.1 ((h.mem_iff last.node.offset).2 ⟨last, hlast, rfl⟩) with hmem | hmem
  · -- a node that refers to it would stand behind it
    obtain ⟨t, ht, hmem⟩ := List.mem_flatMap.1 hmem
    have hlt := h.before t ht _ hmem
    rcases List.mem_append.1 ht with ht | ht
    · have hfront := (List.pairwise_append.1 h.adjoin.pairwise).2.2 t ht last List.mem_cons_self
      exact absurd hlt (Nat.lt_asymm hfront)
    · rw [List.mem_singleton.1 ht] at hlt
      exact absurd hlt (Nat.lt_irrefl _)
  · exact List.mem_singleton.1 hmem

/-- When a node was written for a node of the value, no other was. -/
theorem filter_eq (h : Tiling a stop tiles pending) {p : Value} {k : Nat}
    (hk : p.shareKey? = some k) (ht : t ∈ tiles) (htk : t.origin.shareKey? = some k) :
    tiles.filter (fun t => t.origin.sameNode p) = [t] := by
  have hsame : ∀ t : Tile, t.origin.sameNode p = true ↔ t.origin.shareKey? = some k := by
    intro t
    rw [Origin.sameNode_iff, hk, Option.isSome_some]
    exact and_iff_right rfl
  have hone : (tiles.filter fun t => t.origin.sameNode p).length = 1 := by
    have hcount := List.count_eq_one_of_mem h.once (mem_shareKeys.2 ⟨t, ht, htk⟩)
    rw [shareKeys, List.count_filterMap] at hcount
    rw [← List.countP_eq_length_filter, ← hcount]
    exact List.countP_congr fun t _ => (hsame t).trans beq_iff_eq.symm
  obtain ⟨t', heq⟩ := List.length_eq_one_iff.1 hone
  have hmem : t ∈ tiles.filter fun t => t.origin.sameNode p :=
    List.mem_filter.2 ⟨ht, (hsame t).2 htk⟩
  rw [heq, List.mem_singleton] at hmem
  rw [heq, hmem]

end Tiling

end Arena
end SharedExchange
