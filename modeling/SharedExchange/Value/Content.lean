import SharedExchange.Wire.Encode

/-! # The content of a value

What a value holds, apart from which of its parts are one node.

* `content` is the value with every node number forgotten: two values have the same content exactly
  when they agree in kinds, keys, order and bit patterns.
* `Ordered` says that the keys of every keyed container are strictly ascending, `Fits` that every
  length and count can be written in four bytes. Both are what makers of values promise, and
  neither looks at nodes.

The wire form is a function of the content (`wire_content`). -/

namespace SharedExchange.Value

/-! ## Forgetting nodes -/

mutual

/-- The value with every node number replaced by zero. -/
def content : Value → Value
  | text _ s => text 0 s
  | seq kind _ items => seq kind 0 (itemContents items)
  | dict kind _ entries => dict kind 0 (entryContents entries)
  | v => v

/-- The contents of items. -/
def itemContents : List Value → List Value
  | [] => []
  | v :: items => v.content :: itemContents items

/-- The entries with the contents of their values. -/
def entryContents : List (String × Value) → List (String × Value)
  | [] => []
  | (key, v) :: entries => (key, v.content) :: entryContents entries

end

/-- The contents of items are as many as the items. -/
@[simp] theorem length_itemContents (items : List Value) :
    (itemContents items).length = items.length := by
  induction items with
  | nil => rfl
  | cons v items ih => simp [itemContents, ih]

/-- The contents of entries are as many as the entries. -/
@[simp] theorem length_entryContents (entries : List (String × Value)) :
    (entryContents entries).length = entries.length := by
  induction entries with
  | nil => rfl
  | cons entry entries ih => simp [entryContents, ih]

mutual

/-- Sharing leaves no trace in the wire form. -/
theorem wire_content (v : Value) : v.content.wire = v.wire := by
  cases v with
  | seq kind node items => simp [content, wire, wireItems_itemContents items]
  | dict kind node entries => simp [content, wire, wireEntries_entryContents entries]
  | _ => simp [content, wire]

/-- Items have the wire form of their contents. -/
theorem wireItems_itemContents (items : List Value) :
    wireItems (itemContents items) = wireItems items := by
  cases items with
  | nil => rfl
  | cons v items =>
    simp [itemContents, wireItems, wire_content v, wireItems_itemContents items]

/-- Entries have the wire form of their contents. -/
theorem wireEntries_entryContents (entries : List (String × Value)) :
    wireEntries (entryContents entries) = wireEntries entries := by
  cases entries with
  | nil => rfl
  | cons entry entries =>
    obtain ⟨key, v⟩ := entry
    simp [entryContents, wireEntries, wire_content v, wireEntries_entryContents entries]

end

/-! ## What makers of values promise -/

mutual

/-- All keys inside a value are strictly ascending. -/
def Ordered : Value → Prop
  | seq _ _ items => ItemsOrdered items
  | dict _ _ entries => EntriesOrdered none entries
  | _ => True

/-- All keys inside items are strictly ascending. -/
def ItemsOrdered : List Value → Prop
  | [] => True
  | v :: items => v.Ordered ∧ ItemsOrdered items

/-- All keys inside entries are strictly ascending, and those of the entries themselves come after
the key `last`. -/
def EntriesOrdered (last : Option String) : List (String × Value) → Prop
  | [] => True
  | (key, v) :: entries =>
    (∀ earlier ∈ last, Utf8.order earlier key = .lt) ∧ v.Ordered ∧ EntriesOrdered (some key) entries

end

/-- Entries that follow one another in order are in order, however far apart. -/
theorem pairwise_of_entriesOrdered {last : Option String} {entries : List (String × Value)}
    (h : EntriesOrdered last entries) :
    (∀ earlier ∈ last, ∀ entry ∈ entries, Utf8.order earlier entry.1 = .lt) ∧
      entries.Pairwise fun a b => Utf8.order a.1 b.1 = .lt := by
  induction entries generalizing last with
  | nil => exact ⟨fun _ _ _ hentry => (List.not_mem_nil hentry).elim, List.Pairwise.nil⟩
  | cons entry entries ih =>
    obtain ⟨key, v⟩ := entry
    rw [EntriesOrdered] at h
    obtain ⟨hfirst, -, hrest⟩ := h
    obtain ⟨hlater, hpairwise⟩ := ih hrest
    refine ⟨fun earlier hearlier entry hentry => ?_, List.Pairwise.cons (hlater key rfl) hpairwise⟩
    rcases List.mem_cons.1 hentry with rfl | hentry
    · exact hfirst earlier hearlier
    · exact Utf8.order_trans (hfirst earlier hearlier) (hlater key rfl entry hentry)

mutual

/-- All lengths and counts inside a value are below `UInt32.size`. -/
def Fits : Value → Prop
  | text _ s => Utf8.size s < UInt32.size
  | seq _ _ items => items.length < UInt32.size ∧ ItemsFit items
  | dict _ _ entries => entries.length < UInt32.size ∧ EntriesFit entries
  | _ => True

/-- All lengths and counts inside items are below `UInt32.size`. -/
def ItemsFit : List Value → Prop
  | [] => True
  | v :: items => v.Fits ∧ ItemsFit items

/-- All lengths and counts inside entries, their keys included, are below `UInt32.size`. -/
def EntriesFit : List (String × Value) → Prop
  | [] => True
  | (key, v) :: entries => Utf8.size key < UInt32.size ∧ v.Fits ∧ EntriesFit entries

end

end SharedExchange.Value
