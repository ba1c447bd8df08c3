import Mathlib.Tactic
import SharedExchange.Arena.Region
import SharedExchange.Proofs.Attaching

/-! # What reading an arena reads

A node that was found lies inside the used part with its whole payload (`Node.Whole`), and all that
its accessors look at is its header and its payload (`Node.Bounded`). So nothing that can be seen
from an arena depends on any other byte of the object: an arena that has the same bytes in use
(`Arena.SameUsed`) shows the same at every node (`Node.Resembles`) and is copied out alike
(`SameUsed.copyOut_eq`). Of the bytes themselves nothing is assumed. -/

namespace SharedExchange

section

variable {α β γ : Type} {first : Except Fault α}

/-- What follows a step matters only for the answers of the step. -/
theorem bind_congr_ok {f g : α → Except Fault β} (h : ∀ a, first = .ok a → f a = g a) :
    first >>= f = first >>= g := by
  cases first with
  | error fault => rfl
  | ok a => exact h a rfl

/-- A function of the first result may as well be applied by the next step. -/
theorem map_bind (f : α → β) (g : β → Except Fault γ) :
    first.map f >>= g = first >>= fun a => g (f a) := by
  cases first <;> rfl

/-- A function of the last result may as well be applied by the last step. -/
theorem bind_map (f : α → Except Fault β) (g : β → γ) :
    (first >>= f).map g = first >>= fun a => (f a).map g := by
  cases first <;> rfl

end

namespace Node

/-- The same node of another arena. -/
def onto (a : Arena) (n : Node) : Node := { n with arena := a }

/-- A node whose header was checked. -/
structure Whole (n : Node) : Prop where
  aligned : n.offset % 8 = 0
  payload_le : n.payload + Arena.payloadRoom n.kind n.length ≤ n.arena.used
  components : ∀ shape, n.kind = .floats shape → n.length = shape.size

/-- What the accessors look at lies inside the used part. -/
structure Bounded (n : Node) : Prop extends Whole n where
  text_le : n.kind = .text → n.payload + n.length ≤ n.arena.used
  floats_le : ∀ shape, n.kind = .floats shape → n.payload + 4 * shape.size ≤ n.arena.used
  item_le : ∀ i < n.itemCount, n.payload + 8 * i + 8 ≤ n.arena.used
  entry_le : ∀ i < n.entryCount, n.payload + 16 * i + 16 ≤ n.arena.used

/-- A node that lies inside with its payload lies inside with its header. -/
theorem Whole.bounded {n : Node} (h : n.Whole) : n.Bounded := by
  have hle := h.payload_le
  have hpadded : ∀ k, k ≤ Arena.padded k := fun k => by
    rw [Arena.padded]
    omega
  refine ⟨h, fun hkind => ?_, fun shape hkind => ?_, ?_, ?_⟩
  · rw [hkind] at hle
    exact (Nat.add_le_add_left (hpadded _) _).trans hle
  · rw [hkind] at hle
    exact (Nat.add_le_add_left (hpadded _) _).trans hle
  · intro i hi
    rw [itemCount] at hi
    split at hi
    · next kind hkind =>
      rw [hkind] at hle
      simp only [Arena.payloadRoom] at hle
      omega
    · omega
  · intro i hi
    rw [entryCount] at hi
    split at hi
    · next kind hkind =>
      rw [hkind] at hle
      simp only [Arena.payloadRoom] at hle
      omega
    · omega

end Node

namespace Arena

variable {a a' : Arena} {offset : Nat} {n : Node}

/-- Every node that is found was checked. -/
theorem whole_of_node (h : a.node offset = .ok n) :
    n.Whole ∧ n.arena = a ∧ n.offset = offset := by
  rw [node] at h
  simp only [refuse_eq_ok_iff] at h
  obtain ⟨haligned, -, h⟩ := h
  split at h
  · cases h
  · next kind hkind =>
    simp only [refuse_eq_ok_iff, pure_eq_ok_iff] at h
    obtain ⟨hcount, hroom, rfl⟩ := h
    refine ⟨⟨not_not.1 haligned, Nat.not_lt.1 hroom, ?_⟩, rfl, rfl⟩
    rintro shape rfl
    by_contra hne
    exact hcount (bne_iff_ne.2 (Ne.symm hne))

/-! ## Two objects with the same bytes in use -/

/-- Two arenas that lie at the same place and have the same bytes in use. -/
structure SameUsed (a a' : Arena) : Prop where
  start_eq : a'.start = a.start
  used_eq : a'.used = a.used
  get_eq : ∀ i < a.used, a'.memory.get (a.start + i) = a.memory.get (a.start + i)

namespace SameUsed

/-- The used bytes are the same. -/
theorem slice_eq (h : SameUsed a a') {count : Nat} (hle : offset + count ≤ a.used) :
    a'.slice offset count = a.slice offset count := by
  rw [slice, slice, h.start_eq]
  refine Memory.slice_congr fun i hi hi' => ?_
  obtain ⟨k, rfl⟩ := Nat.exists_eq_add_of_le (Nat.le_of_add_right_le hi)
  exact h.get_eq k (by omega)

/-- Numbers among the used bytes are the same. -/
theorem load_eq (h : SameUsed a a') {width : Nat} (hle : offset + width ≤ a.used) :
    a'.memory.load width (a'.start + offset) = a.memory.load width (a.start + offset) :=
  congrArg LittleEndian.ofBytes (h.slice_eq hle)

/-- Words that are checked before they are read are the same. -/
theorem word?_eq (h : SameUsed a a') (offset : Nat) : a'.word? offset = a.word? offset := by
  rw [word?, word?, h.used_eq]
  split
  · next hle => rw [h.load_eq hle]
  · rfl

/-- The same nodes are found. -/
theorem node_eq (h : SameUsed a a') (offset : Nat) :
    a'.node offset = (a.node offset).map (Node.onto a') := by
  rw [node, node, h.used_eq]
  simp only
  by_cases haligned : offset % 8 ≠ 0
  · rw [if_pos haligned, if_pos haligned]
    rfl
  rw [if_neg haligned, if_neg haligned]
  by_cases hheader : a.used < offset + headerSize
  · rw [if_pos hheader, if_pos hheader]
    rfl
  rw [if_neg hheader, if_neg hheader]
  -- the header lies inside, so it is read alike
  rw [headerSize] at hheader
  have hbyte : a'.memory.get (a'.start + offset) = a.memory.get (a.start + offset) := by
    rw [h.start_eq]
    exact h.get_eq offset (by omega)
  have hlength : a'.memory.load 4 (a'.start + offset + 4) =
      a.memory.load 4 (a.start + offset + 4) := by
    rw [Nat.add_assoc, Nat.add_assoc]
    exact h.load_eq (by omega)
  rw [hbyte, hlength]
  cases Kind.ofByte? (a.memory.get (a.start + offset)) with
  | none => rfl
  | some kind =>
    simp only
    split
    · rfl
    · split <;> rfl

end SameUsed

end Arena

namespace Node

open Arena (SameUsed)

variable {a' : Arena} {n : Node}

/-! ## One node -/

/-- The payload word of a node is the same. -/
theorem word_onto (h : SameUsed n.arena a') : (n.onto a').word = n.word := by
  rw [word, word]
  exact congrArg (·.getD 0) (h.word?_eq n.payload)

/-- A node is the same boolean. -/
theorem toBool?_onto (h : SameUsed n.arena a') : (n.onto a').toBool? = n.toBool? := by
  rw [toBool?, toBool?, word_onto h]
  rfl

/-- A node is the same integer. -/
theorem toInt?_onto (h : SameUsed n.arena a') : (n.onto a').toInt? = n.toInt? := by
  rw [toInt?, toInt?, word_onto h]
  rfl

/-- A node is the same double. -/
theorem toDouble?_onto (h : SameUsed n.arena a') : (n.onto a').toDouble? = n.toDouble? := by
  rw [toDouble?, toDouble?, word_onto h, toInt?_onto h]
  rfl

/-- A node is the same text. -/
theorem toText?_onto (h : SameUsed n.arena a') (hn : n.Whole) :
    (n.onto a').toText? = n.toText? := by
  rw [toText?, toText?]
  show (if n.kind = .text then _ else _) = _
  split
  · next hkind => exact congrArg Utf8.decode? (h.slice_eq (hn.bounded.text_le hkind))
  · rfl

/-- A float shape has the same components. -/
theorem component_onto (h : SameUsed n.arena a') (hn : n.Whole) {shape : Shape}
    (hkind : n.kind = .floats shape) {i : Nat} (hi : i < shape.size) :
    (n.onto a').component i = n.component i := by
  have hle := hn.bounded.floats_le shape hkind
  have hword : a'.memory.load 4 (a'.start + (n.payload + 4 * i)) =
      n.arena.memory.load 4 (n.arena.start + (n.payload + 4 * i)) := h.load_eq (by omega)
  rw [component, component, Memory.load32, Memory.load32, Nat.add_assoc, Nat.add_assoc]
  exact congrArg UInt32.ofNat hword

/-- A float shape has the same run of components. -/
theorem components?_onto (h : SameUsed n.arena a') (hn : n.Whole) :
    (n.onto a').components? = n.components? := by
  have hsame : (n.onto a').kind = n.kind := rfl
  rw [components?, components?, hsame]
  cases hkind : n.kind with
  | floats shape =>
    have hcomponents : (List.range shape.size).map (n.onto a').component =
        (List.range shape.size).map n.component :=
      List.map_congr_left fun i hi => component_onto h hn hkind (List.mem_range.1 hi)
    show (if (a'.start + n.payload) % 4 = 0 then _ else _) = _
    rw [h.start_eq, hcomponents]
  | _ => rfl

/-! ## Children -/

/-- A node has the same children. -/
theorem child_onto (h : SameUsed n.arena a') (reference : Nat) :
    (n.onto a').child reference = (n.child reference).map (onto a') := by
  rw [child, child]
  show (if n.offset ≤ reference then _ else a'.node reference) = _
  split
  · rfl
  · exact h.node_eq reference

/-- A node has the same children that can be read. -/
theorem toOption_child_onto (h : SameUsed n.arena a') (reference : Nat) :
    ((n.onto a').child reference).toOption = (n.child reference).toOption.map (onto a') := by
  rw [child_onto h]
  cases n.child reference <;> rfl

/-- A child is a node of the same arena, and was checked like it. -/
theorem whole_of_child {child : Node} {reference : Nat}
    (h : (n.child reference).toOption = some child) : child.Whole ∧ child.arena = n.arena := by
  rw [Node.child] at h
  split at h
  · cases h
  · cases hfound : n.arena.node reference with
    | error fault =>
      rw [hfound] at h
      cases h
    | ok found =>
      rw [hfound] at h
      obtain rfl := Option.some.inj h
      obtain ⟨hwhole, harena, -⟩ := Arena.whole_of_node hfound
      exact ⟨hwhole, harena⟩

/-- A node has the same item at every position. -/
theorem item?_onto (h : SameUsed n.arena a') (i : Nat) :
    (n.onto a').item? i = (n.item? i).map (onto a') := by
  rw [item?, item?]
  show (if i < n.itemCount then (a'.word? (n.payload + 8 * i)).bind _ else none) = _
  split
  · rw [h.word?_eq, Option.map_bind]
    exact Option.bind_congr fun reference _ => toOption_child_onto h reference
  · rfl

/-- A node refers to the same key and value at every position. -/
theorem entryReferences?_onto (h : SameUsed n.arena a') (i : Nat) :
    (n.onto a').entryReferences? i = n.entryReferences? i := by
  rw [entryReferences?, entryReferences?]
  show (a'.word? (n.payload + 16 * i) >>= fun key => a'.word? (n.payload + 16 * i + 8) >>= _) = _
  rw [h.word?_eq, h.word?_eq]

/-- A node has the same entry at every position. -/
theorem entry?_onto (h : SameUsed n.arena a') (i : Nat) :
    Node.entry? (n.onto a') i = (Node.entry? n i).map (Prod.map id (onto a')) := by
  rw [Node.entry?, Node.entry?, entryReferences?_onto h]
  cases n.entryReferences? i with
  | none => rfl
  | some references =>
    obtain ⟨keyReference, valueReference⟩ := references
    show (((n.onto a').child keyReference).toOption >>= fun key =>
      ((n.onto a').child valueReference).toOption >>= fun value => _) = _
    rw [toOption_child_onto h, toOption_child_onto h]
    cases hkey : (n.child keyReference).toOption with
    | none => simp [hkey]
    | some key =>
      obtain ⟨hwhole, harena⟩ := whole_of_child hkey
      have htext : (key.onto a').toText? = key.toText? := toText?_onto (harena ▸ h) hwhole
      cases hvalue : (n.child valueReference).toOption with
      | none => simp [hkey, hvalue]
      | some value =>
        simp only [hkey, hvalue, Option.map_some, Option.bind_eq_bind, Option.bind_some, htext]
        cases key.toText? <;> rfl

/-- The search goes the same way in both arenas. -/
theorem search_onto (h : SameUsed n.arena a') (key : String) (steps low high : Nat) :
    (n.onto a').search key steps low high = (n.search key steps low high).map (onto a') := by
  induction steps generalizing low high with
  | zero => rfl
  | succ steps ih =>
    rw [search, search]
    split
    · simp only
      rw [entry?_onto h]
      cases n.entry? (low + (high - low) / 2) with
      | none => rfl
      | some entry =>
        obtain ⟨found, value⟩ := entry
        simp only [Option.map_some, Prod.map_apply, id_eq]
        cases Utf8.order found key with
        | eq => rfl
        | lt => exact ih ..
        | gt => exact ih ..
    · rfl

/-- A node has the same items. -/
theorem items_onto (h : SameUsed n.arena a') : (n.onto a').items = n.items.map (onto a') := by
  rw [items, items, List.map_filterMap]
  exact List.filterMap_congr fun i _ => item?_onto h i

/-- A node has the same entries. -/
theorem entries_onto (h : SameUsed n.arena a') :
    (n.onto a').entries = n.entries.map (Prod.map id (onto a')) := by
  rw [entries, entries, List.map_filterMap]
  exact List.filterMap_congr fun i _ => entry?_onto h i

/-! ## Copying -/

/-- A copy follows the same references to items. -/
theorem itemReference_onto (h : SameUsed n.arena a') (i : Nat) :
    (n.onto a').itemReference i = n.itemReference i := by
  have hword : (n.onto a').arena.word? ((n.onto a').payload + 8 * i) =
      n.arena.word? (n.payload + 8 * i) := h.word?_eq _
  rw [itemReference, itemReference, hword]
  rfl

/-- A copy finds the same keys. -/
theorem keyAt_onto (h : SameUsed n.arena a') (reference : Nat) :
    (n.onto a').keyAt reference = n.keyAt reference := by
  rw [keyAt, keyAt]
  show (a'.node reference >>= _) = _
  rw [h.node_eq]
  cases hfound : n.arena.node reference with
  | error fault => rfl
  | ok found =>
    obtain ⟨hwhole, harena, -⟩ := Arena.whole_of_node hfound
    have htext : (found.onto a').toText? = found.toText? := toText?_onto (harena ▸ h) hwhole
    simp only [Except.map, bind, Except.bind, htext]

/-- A copy follows the same references to entries. -/
theorem entryReference_onto (h : SameUsed n.arena a') (i : Nat) :
    (n.onto a').entryReference i = n.entryReference i := by
  rw [entryReference, entryReference, entryReferences?_onto h]
  cases n.entryReferences? i with
  | none => rfl
  | some references =>
    obtain ⟨keyReference, valueReference⟩ := references
    show (if n.offset ≤ keyReference ∨ n.offset ≤ valueReference then _
      else ((n.onto a').keyAt keyReference).map _) = _
    rw [keyAt_onto h]
    rfl

end Node

namespace Arena

open Node (onto)

variable {a a' : Arena} {n : Node} {f : Nat → Except Fault Value} {node : NodeId}

/-- The same items are copied. -/
theorem copyItems_onto (h : SameUsed n.arena a') (count i : Nat) :
    copyItems f (n.onto a') count i = copyItems f n count i := by
  induction count generalizing i with
  | zero => rfl
  | succ count ih => rw [copyItems, copyItems, Node.itemReference_onto h, ih]

/-- The same entries are copied. -/
theorem copyEntries_onto (h : SameUsed n.arena a') (count i : Nat)
    (copied : List (String × Value)) :
    copyEntries f (n.onto a') count i copied = copyEntries f n count i copied := by
  induction count generalizing i copied with
  | zero => rfl
  | succ count ih =>
    rw [copyEntries, copyEntries, Node.entryReference_onto h]
    simp only [ih]

/-- A scalar is copied to the same value. -/
theorem leafValue_onto (h : SameUsed n.arena a') (hn : n.Whole) :
    leafValue (n.onto a') node = leafValue n node := by
  have hsame : (n.onto a').kind = n.kind := rfl
  rw [leafValue, leafValue, hsame, Node.word_onto h, Node.toText?_onto h hn]
  cases hkind : n.kind with
  | floats shape =>
    have hcomponents : (Vector.ofFn fun i : Fin shape.size => (n.onto a').component i) =
        Vector.ofFn fun i : Fin shape.size => n.component i :=
      congrArg Vector.ofFn (funext fun i => Node.component_onto h hn hkind i.isLt)
    show Except.ok (Value.floats shape _) = Except.ok (Value.floats shape _)
    rw [hcomponents]
  | _ => rfl

/-- A node is copied to the same value. -/
theorem copyNode_onto (h : SameUsed n.arena a') (hn : n.Whole) :
    copyNode f node (n.onto a') = copyNode f node n := by
  have hsame : (n.onto a').kind = n.kind := rfl
  rw [copyNode, copyNode, hsame, leafValue_onto h hn]
  cases n.kind with
  | seq kind =>
    show (copyItems f (n.onto a') n.length 0 >>= _) = _
    rw [copyItems_onto h]
    rfl
  | dict kind =>
    show (copyEntries f (n.onto a') n.length 0 [] >>= _) = _
    rw [copyEntries_onto h]
    rfl
  | _ => rfl

/-- The value at an offset is that of the same bytes. -/
theorem SameUsed.valueAt_eq (h : SameUsed a a') (node : NodeId) (offset : Nat) :
    a'.valueAt node offset = a.valueAt node offset := by
  -- on the offset, since references lead backwards
  induction offset using Nat.strongRecOn with
  | ind offset ih =>
    rw [Arena.valueAt_eq, Arena.valueAt_eq, h.node_eq, map_bind]
    refine bind_congr_ok fun n hnode => ?_
    obtain ⟨hwhole, harena, hoffset⟩ := whole_of_node hnode
    rw [copyNode_onto (harena ▸ h) hwhole]
    exact copyNode_congr (fun reference hlt => ih reference (hoffset ▸ hlt)) node

/-- The same value is copied from every offset. -/
theorem SameUsed.copyOut_eq (h : SameUsed a a') (node : NodeId) (offset : Nat) :
    a'.copyOut node offset = a.copyOut node offset := by
  rw [copyOut_eq_valueAt, copyOut_eq_valueAt, h.valueAt_eq]

end Arena

/-- Two nodes at which the same is seen: the same content, and children that stand at the same
places of the other's arena. -/
structure Node.Resembles (n n' : Node) : Prop where
  eq_onto : n' = n.onto n'.arena
  toBool?_eq : n'.toBool? = n.toBool?
  toInt?_eq : n'.toInt? = n.toInt?
  toDouble?_eq : n'.toDouble? = n.toDouble?
  toText?_eq : n'.toText? = n.toText?
  components?_eq : n'.components? = n.components?
  item?_eq : ∀ i, n'.item? i = (n.item? i).map (onto n'.arena)
  lookup?_eq : ∀ key, n'.lookup? key = (n.lookup? key).map (onto n'.arena)
  items_eq : n'.items = n.items.map (onto n'.arena)
  entries_eq : n'.entries = n.entries.map (Prod.map id (onto n'.arena))
  toValue_eq : ∀ node, n'.toValue node = n.toValue node

/-- A node seen over arenas with the same used bytes looks the same. -/
theorem Node.resembles_onto {n : Node} {a' : Arena} (h : Arena.SameUsed n.arena a')
    (hn : n.Whole) : n.Resembles (n.onto a') where
  eq_onto := rfl
  toBool?_eq := toBool?_onto h
  toInt?_eq := toInt?_onto h
  toDouble?_eq := toDouble?_onto h
  toText?_eq := toText?_onto h hn
  components?_eq := components?_onto h hn
  item?_eq := item?_onto h
  lookup?_eq key := search_onto h key ..
  items_eq := items_onto h
  entries_eq := entries_onto h
  toValue_eq node := h.copyOut_eq node n.offset

end SharedExchange
