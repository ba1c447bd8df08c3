import Mathlib.Tactic
import SharedExchange.Arena.Layout
import SharedExchange.Value.Content
import SharedExchange.Value.Equality
import SharedExchange.Value.Path

/-! # The nodes inside a value

A value is *coherent* when one node seen under one kind is one value, wherever it occurs
(`Coherent`); every value that is built by making nodes and referring to them is. `relabel` gives
every node a new number, found from the node and the kind it is seen under. It changes no content
(`content_relabel`), leads to the same places (`reach?_relabel`) and, as long as different nodes get
different numbers, keeps apart and together what was so before (`sameNode_relabel`). -/

namespace SharedExchange

open Arena (shareKey)

namespace Value

/-! ## Parts -/

mutual

/-- A value and everything inside it. -/
def parts : Value → List Value
  | seq kind node items => seq kind node items :: itemParts items
  | dict kind node entries => dict kind node entries :: entryParts entries
  | v => [v]

/-- The parts of items. -/
def itemParts : List Value → List Value
  | [] => []
  | v :: items => v.parts ++ itemParts items

/-- The parts of the values of entries. -/
def entryParts : List (String × Value) → List Value
  | [] => []
  | (_, v) :: entries => v.parts ++ entryParts entries

end

/-- A value is one of its parts. -/
@[simp] theorem self_mem_parts (v : Value) : v ∈ v.parts := by
  cases v <;> simp [parts]

/-- The parts of items are those of the single items. -/
theorem mem_itemParts {p : Value} {items : List Value} :
    p ∈ itemParts items ↔ ∃ v ∈ items, p ∈ v.parts := by
  induction items with
  | nil => simp [itemParts]
  | cons v items ih => simp [itemParts, ih]

/-- The parts of entries are those of the single values. -/
theorem mem_entryParts {p : Value} {entries : List (String × Value)} :
    p ∈ entryParts entries ↔ ∃ entry ∈ entries, p ∈ entry.2.parts := by
  induction entries with
  | nil => simp [entryParts]
  | cons entry entries ih =>
    obtain ⟨key, v⟩ := entry
    simp [entryParts, ih]

mutual

/-- Parts of parts are parts. -/
theorem parts_trans (v : Value) {p q : Value} (hp : p ∈ v.parts) (hq : q ∈ p.parts) :
    q ∈ v.parts := by
  cases v with
  | seq kind node items =>
    rw [parts] at hp ⊢
    rcases List.mem_cons.1 hp with rfl | hp
    · rwa [parts] at hq
    · exact List.mem_cons_of_mem _ (itemParts_trans items hp hq)
  | dict kind node entries =>
    rw [parts] at hp ⊢
    rcases List.mem_cons.1 hp with rfl | hp
    · rwa [parts] at hq
    · exact List.mem_cons_of_mem _ (entryParts_trans entries hp hq)
  | _ =>
    simp only [parts, List.mem_singleton] at hp
    rwa [hp] at hq

/-- A part of a part of the items is a part of the items. -/
theorem itemParts_trans (items : List Value) {p q : Value} (hp : p ∈ itemParts items)
    (hq : q ∈ p.parts) : q ∈ itemParts items := by
  cases items with
  | nil => cases hp
  | cons v items =>
    rw [itemParts, List.mem_append] at hp ⊢
    exact hp.imp (fun hp => parts_trans v hp hq) fun hp => itemParts_trans items hp hq

/-- A part of a part of the entries is a part of the entries. -/
theorem entryParts_trans (entries : List (String × Value)) {p q : Value}
    (hp : p ∈ entryParts entries) (hq : q ∈ p.parts) : q ∈ entryParts entries := by
  cases entries with
  | nil => cases hp
  | cons entry entries =>
    obtain ⟨key, v⟩ := entry
    rw [entryParts, List.mem_append] at hp ⊢
    exact hp.imp (fun hp => parts_trans v hp hq) fun hp => entryParts_trans entries hp hq

end

mutual

/-- No part nests deeper than the whole. -/
theorem levels_le_of_mem (v : Value) {p : Value} (hp : p ∈ v.parts) : p.levels ≤ v.levels := by
  cases v with
  | seq kind node items =>
    rw [parts] at hp
    rcases List.mem_cons.1 hp with rfl | hp
    · exact Nat.le_refl _
    · exact Nat.le_of_lt (levels_lt_of_mem_items items hp)
  | dict kind node entries =>
    rw [parts] at hp
    rcases List.mem_cons.1 hp with rfl | hp
    · exact Nat.le_refl _
    · exact Nat.le_of_lt (levels_lt_of_mem_entries entries hp)
  | _ =>
    simp only [parts, List.mem_singleton] at hp
    rw [hp]

/-- A part of the items has fewer levels than they have. -/
theorem levels_lt_of_mem_items (items : List Value) {p : Value} (hp : p ∈ itemParts items) :
    p.levels < itemLevels items := by
  cases items with
  | nil => cases hp
  | cons v items =>
    rw [itemParts, List.mem_append] at hp
    rw [itemLevels]
    rcases hp with hp | hp
    · have hle := levels_le_of_mem v hp
      omega
    · have hlt := levels_lt_of_mem_items items hp
      omega

/-- A part of the entries has fewer levels than they have. -/
theorem levels_lt_of_mem_entries (entries : List (String × Value)) {p : Value}
    (hp : p ∈ entryParts entries) : p.levels < entryLevels entries := by
  cases entries with
  | nil => cases hp
  | cons entry entries =>
    obtain ⟨key, v⟩ := entry
    rw [entryParts, List.mem_append] at hp
    rw [entryLevels]
    rcases hp with hp | hp
    · have hle := levels_le_of_mem v hp
      omega
    · have hlt := levels_lt_of_mem_entries entries hp
      omega

end

/-! ## Nodes seen under a kind -/

/-- The number of a node seen under its kind; scalars have none. -/
def shareKey? : Value → Option Nat
  | text node _ => some (shareKey node .text)
  | seq kind node _ => some (shareKey node (.seq kind))
  | dict kind node _ => some (shareKey node (.dict kind))
  | _ => none

/-- The bytes of kinds have five bits. -/
theorem byte_lt (kind : Kind) : kind.byte.toNat < 32 := by
  cases kind with
  | integer kind => cases kind <;> decide
  | floats shape => cases shape <;> decide
  | seq kind => cases kind <;> decide
  | dict kind => cases kind <;> decide
  | _ => decide

/-- The number of a node seen under a kind tells both. -/
theorem shareKey_inj {node node' : NodeId} {kind kind' : Kind} :
    shareKey node kind = shareKey node' kind' ↔ node = node' ∧ kind = kind' := by
  refine ⟨?_, fun ⟨hnode, hkind⟩ => by rw [hnode, hkind]⟩
  intro h
  have hlt := byte_lt kind
  have hlt' := byte_lt kind'
  simp only [shareKey] at h
  -- the kind takes five bits, so quotient and remainder by 32 give both back
  have hnode : @Eq Nat node node' := by omega
  refine ⟨hnode, ?_⟩
  have hbyte : kind.byte = kind'.byte := UInt8.toNat_inj.1 (by omega)
  have hread := Kind.ofByte?_byte kind
  rw [hbyte, Kind.ofByte?_byte] at hread
  exact (Option.some.inj hread).symm

/-- Two values are one node exactly when they have the same number. -/
theorem sameNode_iff {a b : Value} :
    a.sameNode b = true ↔ a.shareKey?.isSome ∧ a.shareKey? = b.shareKey? := by
  cases a <;> cases b <;> simp [sameNode, shareKey?, shareKey_inj, and_comm]

/-- One node seen under one kind is one value, wherever it occurs. -/
def Coherent (v : Value) : Prop :=
  ∀ a ∈ v.parts, ∀ b ∈ v.parts, a.sameNode b = true → a = b

/-- Parts with the same number are the same value. -/
theorem Coherent.eq_of_shareKey {v a b : Value} (h : v.Coherent) (ha : a ∈ v.parts)
    (hb : b ∈ v.parts) {k : Nat} (hka : a.shareKey? = some k) (hkb : b.shareKey? = some k) :
    a = b :=
  h a ha b hb (sameNode_iff.2 ⟨Option.isSome_of_eq_some hka, hka.trans hkb.symm⟩)

/-- A part that nests less deep than another is another node. -/
theorem Coherent.shareKey_ne {v p q : Value} (h : v.Coherent) (hp : p ∈ v.parts)
    (hq : q ∈ p.parts) (hlt : q.levels < p.levels) {k : Nat} (hk : p.shareKey? = some k) :
    q.shareKey? ≠ some k := by
  intro hqk
  have heq := h.eq_of_shareKey (parts_trans v hp hq) hp hqk hk
  rw [heq] at hlt
  exact lt_irrefl _ hlt

/-- No value inside a sequence is the sequence itself. -/
theorem Coherent.shareKey_ne_of_mem_items {v : Value} {kind : SeqKind} {node : NodeId}
    {items : List Value} (h : v.Coherent) (hv : seq kind node items ∈ v.parts) {p : Value}
    (hp : p ∈ itemParts items) : p.shareKey? ≠ some (shareKey node (.seq kind)) :=
  h.shareKey_ne hv (List.mem_cons_of_mem _ hp) (levels_lt_of_mem_items items hp) rfl

/-- No value inside a keyed container is the container itself. -/
theorem Coherent.shareKey_ne_of_mem_entries {v : Value} {kind : DictKind} {node : NodeId}
    {entries : List (String × Value)} (h : v.Coherent) (hv : dict kind node entries ∈ v.parts)
    {p : Value} (hp : p ∈ entryParts entries) :
    p.shareKey? ≠ some (shareKey node (.dict kind)) :=
  h.shareKey_ne hv (List.mem_cons_of_mem _ hp) (levels_lt_of_mem_entries entries hp) rfl

/-! ## New numbers for the nodes -/

mutual

/-- The value with the number `f k` for the node with number and kind `k`. -/
def relabel (f : Nat → NodeId) : Value → Value
  | text node s => text (f (shareKey node .text)) s
  | seq kind node items => seq kind (f (shareKey node (.seq kind))) (relabelItems f items)
  | dict kind node entries => dict kind (f (shareKey node (.dict kind))) (relabelEntries f entries)
  | v => v

/-- The items with new numbers for their nodes. -/
def relabelItems (f : Nat → NodeId) : List Value → List Value
  | [] => []
  | v :: items => v.relabel f :: relabelItems f items

/-- The entries with new numbers for the nodes of their values. -/
def relabelEntries (f : Nat → NodeId) : List (String × Value) → List (String × Value)
  | [] => []
  | (key, v) :: entries => (key, v.relabel f) :: relabelEntries f entries

end

mutual

/-- New numbers change no content. -/
@[simp] theorem content_relabel (f : Nat → NodeId) (v : Value) :
    (v.relabel f).content = v.content := by
  cases v with
  | seq kind node items => rw [relabel, content, content, itemContents_relabelItems f items]
  | dict kind node entries =>
    rw [relabel, content, content, entryContents_relabelEntries f entries]
  | _ => simp [relabel, content]

/-- Other nodes do not change the contents of items. -/
theorem itemContents_relabelItems (f : Nat → NodeId) (items : List Value) :
    itemContents (relabelItems f items) = itemContents items := by
  cases items with
  | nil => rfl
  | cons v items =>
    rw [relabelItems, itemContents, itemContents, content_relabel f v,
      itemContents_relabelItems f items]

/-- Other nodes do not change the contents of entries. -/
theorem entryContents_relabelEntries (f : Nat → NodeId) (entries : List (String × Value)) :
    entryContents (relabelEntries f entries) = entryContents entries := by
  cases entries with
  | nil => rfl
  | cons entry entries =>
    obtain ⟨key, v⟩ := entry
    rw [relabelEntries, entryContents, entryContents, content_relabel f v,
      entryContents_relabelEntries f entries]

end

/-- Items are relabelled one by one. -/
theorem relabelItems_eq_map (f : Nat → NodeId) (items : List Value) :
    relabelItems f items = items.map (relabel f) := by
  induction items with
  | nil => rfl
  | cons v items ih => rw [relabelItems, ih, List.map_cons]

/-- Entries are relabelled one by one, and keep their keys. -/
theorem relabelEntries_eq_map (f : Nat → NodeId) (entries : List (String × Value)) :
    relabelEntries f entries = entries.map fun entry => (entry.1, entry.2.relabel f) := by
  induction entries with
  | nil => rfl
  | cons entry entries ih => rw [relabelEntries, ih, List.map_cons]

/-- Under every key there is the relabelled value. -/
theorem lookup_relabelEntries (f : Nat → NodeId) (key : String) (entries : List (String × Value)) :
    (relabelEntries f entries).lookup key = (entries.lookup key).map (relabel f) := by
  induction entries with
  | nil => rfl
  | cons entry entries ih =>
    obtain ⟨key', v⟩ := entry
    rw [relabelEntries, List.lookup_cons, List.lookup_cons]
    cases key == key'
    · exact ih
    · rfl

/-- Under every key of a relabelled container there is the relabelled child. -/
@[simp] theorem lookup?_relabel (f : Nat → NodeId) (v : Value) (key : String) :
    (v.relabel f).lookup? key = (v.lookup? key).map (relabel f) := by
  cases v with
  | dict kind node entries => exact lookup_relabelEntries f key entries
  | _ => rfl

/-- At every position of a relabelled sequence there is the relabelled item. -/
@[simp] theorem item?_relabel (f : Nat → NodeId) (v : Value) (i : Nat) :
    (v.relabel f).item? i = (v.item? i).map (relabel f) := by
  cases v with
  | seq kind node items =>
    simp only [relabel, item?, items?, Option.bind_some, relabelItems_eq_map, List.getElem?_map]
  | _ => rfl

/-- What is found under a key is a part. -/
theorem mem_parts_of_lookup? {v a : Value} {key : String} (h : v.lookup? key = some a) :
    a ∈ v.parts := by
  cases v with
  | dict kind node entries =>
    rw [parts]
    refine List.mem_cons_of_mem _ (mem_entryParts.2 ⟨(key, a), ?_, self_mem_parts a⟩)
    obtain ⟨front, back, heq, -⟩ := List.lookup_eq_some_iff.1 h
    rw [heq]
    exact List.mem_append_right _ List.mem_cons_self
  | _ => cases h

/-- What is found at a position is a part. -/
theorem mem_parts_of_item? {v a : Value} {i : Nat} (h : v.item? i = some a) : a ∈ v.parts := by
  cases v with
  | seq kind node items =>
    rw [parts]
    exact List.mem_cons_of_mem _ (mem_itemParts.2 ⟨a, List.mem_of_getElem? h, self_mem_parts a⟩)
  | _ => cases h

/-- A step by key leads to the child from which the path goes on. -/
@[simp] theorem reach?_cons_key (v : Value) (key : String) (path : List Step) :
    v.reach? (.key key :: path) = (v.lookup? key).bind fun child => child.reach? path := rfl

/-- A step by position leads to the item from which the path goes on. -/
@[simp] theorem reach?_cons_position (v : Value) (i : Nat) (path : List Step) :
    v.reach? (.position i :: path) = (v.item? i).bind fun child => child.reach? path := rfl

/-- What is found at the end of a path is a part. -/
theorem mem_parts_of_reach? {v a : Value} {path : List Step} (h : v.reach? path = some a) :
    a ∈ v.parts := by
  induction path generalizing v with
  | nil =>
    cases h
    exact self_mem_parts _
  | cons step path ih =>
    cases step with
    | key key =>
      obtain ⟨child, hchild, hrest⟩ := Option.bind_eq_some_iff.1 h
      exact parts_trans _ (mem_parts_of_lookup? hchild) (ih hrest)
    | position i =>
      obtain ⟨child, hchild, hrest⟩ := Option.bind_eq_some_iff.1 h
      exact parts_trans _ (mem_parts_of_item? hchild) (ih hrest)

/-- The same paths lead to the same places. -/
theorem reach?_relabel (f : Nat → NodeId) (v : Value) (path : List Step) :
    (v.relabel f).reach? path = (v.reach? path).map (relabel f) := by
  induction path generalizing v with
  | nil => rfl
  | cons step path ih =>
    cases step with
    | key key =>
      rw [reach?_cons_key, reach?_cons_key, lookup?_relabel]
      cases v.lookup? key with
      | none => rfl
      | some child => exact ih child
    | position i =>
      rw [reach?_cons_position, reach?_cons_position, item?_relabel]
      cases v.item? i with
      | none => rfl
      | some child => exact ih child

/-- When different nodes get different numbers, nodes are the same afterwards exactly when they
were before. -/
theorem sameNode_relabel {f : Nat → NodeId} {a b : Value}
    (h : ∀ k k', a.shareKey? = some k → b.shareKey? = some k' → f k = f k' → k = k') :
    (a.relabel f).sameNode (b.relabel f) = a.sameNode b := by
  have hnode : ∀ node node' kind, a.shareKey? = some (shareKey node kind) →
      b.shareKey? = some (shareKey node' kind) →
      (f (shareKey node kind) == f (shareKey node' kind)) = (node == node') := by
    intro node node' kind ha hb
    rw [Bool.eq_iff_iff, beq_iff_eq, beq_iff_eq]
    exact ⟨fun heq => (shareKey_inj.1 (h _ _ ha hb heq)).1, fun heq => by rw [heq]⟩
  cases a <;> cases b <;> simp only [relabel, sameNode]
  case text.text node s node' s' => exact hnode _ _ _ rfl rfl
  case seq.seq kind node items kind' node' items' =>
    by_cases hkind : kind = kind'
    · subst hkind
      rw [hnode _ _ _ rfl rfl]
    · rw [beq_false_of_ne hkind, Bool.false_and, Bool.false_and]
  case dict.dict kind node entries kind' node' entries' =>
    by_cases hkind : kind = kind'
    · subst hkind
      rw [hnode _ _ _ rfl rfl]
    · rw [beq_false_of_ne hkind, Bool.false_and, Bool.false_and]

/-- Paths that lead to one node of `v` lead to one node of `w`, and paths that lead to different
nodes of `v` lead to different nodes of `w`. -/
def SharesAs (w v : Value) : Prop :=
  ∀ path path' a b, v.reach? path = some a → v.reach? path' = some b →
    ∃ a' b', w.reach? path = some a' ∧ w.reach? path' = some b' ∧ a'.sameNode b' = a.sameNode b

/-- New numbers that differ for different nodes keep the sharing. -/
theorem sharesAs_relabel {f : Nat → NodeId} {v : Value}
    (h : ∀ a ∈ v.parts, ∀ b ∈ v.parts, ∀ k k', a.shareKey? = some k → b.shareKey? = some k' →
      f k = f k' → k = k') : (v.relabel f).SharesAs v := by
  intro path path' a b ha hb
  refine ⟨a.relabel f, b.relabel f, ?_, ?_, ?_⟩
  · rw [reach?_relabel, ha, Option.map_some]
  · rw [reach?_relabel, hb, Option.map_some]
  · exact sameNode_relabel (h a (mem_parts_of_reach? ha) b (mem_parts_of_reach? hb))

end Value

end SharedExchange
