import Mathlib.Tactic
import SharedExchange.Proofs.Arena.Sharing
import SharedExchange.Proofs.Arena.Written

/-! # What building writes

A writer only ever adds: bytes behind the cursor and places of nodes that had none (`Grows`). So
what stands in its arena is said of every arena that is read later (`Later`), whatever was added in
between: an offset `Denotes` a value when every later arena has the value there, with its nodes
numbered by their places.

`Kept` is the invariant of building: every node that has a place is denoted there, with all nodes
inside it placed as well, and no two nodes share a place. `put_spec` is the step that keeps it. -/

namespace SharedExchange.Arena

/-! ## Arenas that are read later -/

/-- An arena that has all bytes written so far. -/
structure Reads (site : Site) (w : Writer) (a : Arena) : Prop where
  start_eq : a.start = site.start
  cursor_le : w.cursor ≤ a.used
  used_lt : a.used < UInt64.size
  get_eq : ∀ i < w.cursor, a.memory.get (site.start + i) = w.memory.get (site.start + i)

/-- An arena that is read once the writer is done, and where the nodes are then. -/
structure Later (site : Site) (w : Writer) (a : Arena) (place : Nat → Nat) : Prop extends
    Reads site w a where
  place_eq : ∀ k offset : Nat, w.placed[k]? = some offset → place k = offset

/-- What was written stays, and what was placed keeps its place. -/
structure Grows (site : Site) (w w' : Writer) : Prop where
  cursor_le : w.cursor ≤ w'.cursor
  get_eq : ∀ i < w.cursor, w'.memory.get (site.start + i) = w.memory.get (site.start + i)
  placed : ∀ k offset : Nat, w.placed[k]? = some offset → w'.placed[k]? = some offset

variable {site : Site} {w w' w'' : Writer} {a : Arena} {place : Nat → Nat} {v root : Value}
  {offset k : Nat}

/-- Nothing is lost when nothing is added. -/
theorem Grows.refl (site : Site) (w : Writer) : Grows site w w :=
  ⟨Nat.le_refl _, fun _ _ => rfl, fun _ _ h => h⟩

/-- What twice loses nothing loses nothing. -/
theorem Grows.trans (h : Grows site w w') (h' : Grows site w' w'') : Grows site w w'' where
  cursor_le := h.cursor_le.trans h'.cursor_le
  get_eq i hi := by rw [h'.get_eq i (hi.trans_le h.cursor_le), h.get_eq i hi]
  placed k offset hk := h'.placed k offset (h.placed k offset hk)

/-- An arena that has all bytes at the end has those written before. -/
theorem Grows.reads (h : Grows site w w') (hreads : Reads site w' a) : Reads site w a where
  start_eq := hreads.start_eq
  cursor_le := h.cursor_le.trans hreads.cursor_le
  used_lt := hreads.used_lt
  get_eq i hi := by rw [hreads.get_eq i (hi.trans_le h.cursor_le), h.get_eq i hi]

/-- What is later than the end is later than the beginning. -/
theorem Grows.later (h : Grows site w w') (hlater : Later site w' a place) :
    Later site w a place where
  toReads := h.reads hlater.toReads
  place_eq k offset hk := hlater.place_eq k offset (h.placed k offset hk)

/-- Every later arena has the value at the offset, its nodes numbered by their places. -/
def Denotes (site : Site) (w : Writer) (offset : Nat) (v : Value) : Prop :=
  ∀ a place, Later site w a place → ∀ node : NodeId,
    a.valueAt node offset = .ok (v.relabel fun k => node + place k)

/-- Every later arena has the key at the offset. -/
def DenotesKey (site : Site) (w : Writer) (offset : Nat) (key : String) : Prop :=
  ∀ a place, Later site w a place → ∀ n : Node, n.arena = a → n.keyAt offset = .ok key

/-- What is denoted stays so as the writer goes on. -/
theorem Denotes.grow (h : Denotes site w offset v) (hgrows : Grows site w w') :
    Denotes site w' offset v :=
  fun a place hlater => h a place (hgrows.later hlater)

/-- A key that is denoted stays so as the writer goes on. -/
theorem DenotesKey.grow {key : String} (h : DenotesKey site w offset key)
    (hgrows : Grows site w w') : DenotesKey site w' offset key :=
  fun a place hlater => h a place (hgrows.later hlater)

/-! ## Adding one node -/

/-- A node takes its header and its payload. -/
theorem length_nodeBytes (kind : Kind) (length : Nat) (payload : List UInt8) :
    (Writer.nodeBytes kind length payload).length = headerSize + payload.length := by
  simp [Writer.nodeBytes, headerSize]
  omega

section

variable {kind : Kind} {length : Nat} {payload : List UInt8}

/-- A node that was added stands at the old cursor. -/
theorem eq_of_add (h : w.add site kind length payload = (.ok offset, w')) :
    offset = w.cursor ∧
      w'.memory = w.memory.store (site.start + w.cursor)
        (Writer.nodeBytes kind length payload) ∧
      w'.cursor = w.cursor + (headerSize + padded payload.length) ∧ w'.placed = w.placed := by
  rw [Writer.add] at h
  split at h
  · cases (Prod.mk.inj h).1
  · obtain ⟨hoffset, hw⟩ := Prod.mk.inj h
    rw [← hw]
    simp only [and_self, and_true]
    exact (Except.ok.inj hoffset).symm

/-- Adding a node counts it. -/
theorem nodes_of_add (h : w.add site kind length payload = (.ok offset, w')) :
    w'.nodes = w.nodes + 1 := by
  rw [Writer.add] at h
  split at h
  · cases (Prod.mk.inj h).1
  · rw [← (Prod.mk.inj h).2]

/-- Adding a node loses nothing. -/
theorem grows_of_add (h : w.add site kind length payload = (.ok offset, w')) :
    Grows site w w' := by
  obtain ⟨-, hmemory, hcursor, hplaced⟩ := eq_of_add h
  refine ⟨by omega, ?_, fun k offset hk => by rwa [hplaced]⟩
  intro i hi
  rw [hmemory]
  exact Memory.get_store_of_disjoint _ (.inl (by omega))

/-- A checked writer stays inside the arena. -/
theorem within_of_add (h : w.add site kind length payload = (.ok offset, w'))
    (hmode : site.mode = .checked) : w'.cursor ≤ site.capacity := by
  obtain ⟨-, -, hcursor, -⟩ := eq_of_add h
  rw [Writer.add] at h
  split at h
  · cases (Prod.mk.inj h).1
  · next hroom =>
    have hfits := Nat.not_lt.1 fun hlt => hroom ⟨hmode, hlt⟩
    rw [headerSize] at hcursor hfits
    omega

/-- The bytes of an added node are found in every later arena. -/
theorem written_of_add (h : w.add site kind length payload = (.ok offset, w'))
    (haligned : w.cursor % 8 = 0) (hreads : Reads site w' a) :
    Written a offset kind length payload := by
  obtain ⟨hoffset, hmemory, hcursor, -⟩ := eq_of_add h
  have hpad := le_padded payload.length
  have hused := hreads.cursor_le
  have hlength := length_nodeBytes kind length payload
  refine ⟨by rw [hoffset, haligned], by omega, ?_⟩
  have hstored := Memory.slice_store_same w.memory (site.start + w.cursor)
    (Writer.nodeBytes kind length payload)
  rw [← hmemory, hlength] at hstored
  rw [slice, hreads.start_eq, hoffset, ← hstored]
  apply Memory.slice_congr
  intro i hfrom hto
  have hget := hreads.get_eq (i - site.start) (by omega)
  rwa [Nat.add_sub_cancel' (by omega)] at hget

end

/-! ## The invariant of building -/

/-- What holds of a writer that writes parts of `root`. -/
structure Kept (root : Value) (site : Site) (w : Writer) : Prop where
  aligned : w.cursor % 8 = 0
  within : site.mode = .checked → w.cursor ≤ site.capacity
  /-- Places are in front of the cursor. -/
  lt_cursor : ∀ k offset : Nat, w.placed[k]? = some offset → offset < w.cursor
  /-- Different nodes have different places. -/
  injective : ∀ k k' offset : Nat, w.placed[k]? = some offset → w.placed[k']? = some offset → k = k'
  /-- A node is placed after all nodes inside it. -/
  closed : ∀ p ∈ root.parts, ∀ k offset : Nat, p.shareKey? = some k → w.placed[k]? = some offset →
    ∀ q ∈ p.parts, ∀ k', q.shareKey? = some k' → ∃ offset' : Nat, w.placed[k']? = some offset'
  /-- Where a node is placed, it can be read. -/
  denotes : ∀ p ∈ root.parts, ∀ k offset : Nat, p.shareKey? = some k → w.placed[k]? = some offset →
    Denotes site w offset p

/-- Writing values with these parts keeps the invariant, places all of them and nothing else. -/
structure Builds (root : Value) (site : Site) (parts : List Value) (w w' : Writer) : Prop where
  kept : Kept root site w'
  grows : Grows site w w'
  complete : ∀ p ∈ parts, ∀ k, p.shareKey? = some k → ∃ offset : Nat, w'.placed[k]? = some offset
  only : ∀ k offset : Nat, w'.placed[k]? = some offset →
    w.placed[k]? = some offset ∨ ∃ p ∈ parts, p.shareKey? = some k

/-- A writer that has not written anything. -/
theorem kept_fresh (root : Value) (site : Site) (m : Memory) : Kept root site ⟨m, 0, 0, ∅⟩ where
  aligned := rfl
  within _ := Nat.zero_le _
  lt_cursor k offset hk := by simp at hk
  injective k k' offset hk := by simp at hk
  closed p _ k offset _ hk := by simp at hk
  denotes p _ k offset _ hk := by simp at hk

/-- The invariant is kept when nothing is written. -/
theorem Kept.builds_nil (h : Kept root site w) : Builds root site [] w w where
  kept := h
  grows := .refl site w
  complete p hp := by cases hp
  only k offset hk := .inl hk

/-- Writing one after the other. -/
theorem Builds.append {parts parts' : List Value} (h : Builds root site parts w w')
    (h' : Builds root site parts' w' w'') : Builds root site (parts ++ parts') w w'' where
  kept := h'.kept
  grows := h.grows.trans h'.grows
  complete p hp k hk := by
    rcases List.mem_append.1 hp with hp | hp
    · obtain ⟨offset, hplaced⟩ := h.complete p hp k hk
      exact ⟨offset, h'.grows.placed k offset hplaced⟩
    · exact h'.complete p hp k hk
  only k offset hk := by
    rcases h'.only k offset hk with hk | ⟨p, hp, hpk⟩
    · rcases h.only k offset hk with hold | ⟨p, hp, hpk⟩
      · exact .inl hold
      · exact .inr ⟨p, List.mem_append_left _ hp, hpk⟩
    · exact .inr ⟨p, List.mem_append_right _ hp, hpk⟩

variable {kind : Kind} {length : Nat} {payload : List UInt8}

/-- Adding a node that is not shared keeps the invariant. -/
theorem Kept.builds_of_add {parts : List Value} (h : Kept root site w)
    (hadd : w.add site kind length payload = (.ok offset, w'))
    (hparts : ∀ p ∈ parts, p.shareKey? = none) : Builds root site parts w w' := by
  obtain ⟨-, -, hcursor, hplaced⟩ := eq_of_add hadd
  have hgrows := grows_of_add hadd
  have haligned := h.aligned
  have hpad := padded_mod payload.length
  refine ⟨⟨?_, within_of_add hadd, ?_, ?_, ?_, ?_⟩, hgrows, ?_, ?_⟩
  · rw [hcursor, headerSize]
    omega
  · intro k offset hk
    rw [hplaced] at hk
    exact (h.lt_cursor k offset hk).trans_le hgrows.cursor_le
  · rw [hplaced]
    exact h.injective
  · rw [hplaced]
    exact h.closed
  · intro p hp k offset hpk hk
    rw [hplaced] at hk
    exact (h.denotes p hp k offset hpk hk).grow hgrows
  · intro p hp k hk
    rw [hparts p hp] at hk
    cases hk
  · intro k offset hk
    rw [hplaced] at hk
    exact .inl hk

/-- A node that was met before is not written again. -/
theorem Kept.builds_of_placed (h : Kept root site w) (hv : v ∈ root.parts)
    (hk : v.shareKey? = some k) (hplaced : w.placed[k]? = some offset) :
    Builds root site v.parts w w where
  kept := h
  grows := .refl site w
  complete p hp k' hk' := h.closed v hv k offset hk hplaced p hp k' hk'
  only _ _ hk' := .inl hk'

/-- Remembering a place changes the place of that node only. -/
theorem getElem?_insert_place (w : Writer) (k k' offset : Nat) :
    (w.placed.insert k offset)[k']? = if k = k' then some offset else w.placed[k']? := by
  rw [Std.TreeMap.getElem?_insert]
  simp only [Std.LawfulEqCmp.compare_eq_iff_eq]

/-- A node that is not inside what was written still has no place. -/
theorem Builds.unplaced {inner : List Value} (h : Builds root site inner w w')
    (hinner : ∀ p ∈ inner, p.shareKey? ≠ some k) (hnew : w.placed[k]? = none) :
    w'.placed[k]? = none := by
  rw [Option.eq_none_iff_forall_ne_some]
  intro offset hplace
  rcases h.only k offset hplace with hold | ⟨p, hp, hpk⟩
  · rw [hnew] at hold
    cases hold
  · exact hinner p hp hpk

/-- Remembering the place of an added node moves no other. -/
theorem grows_of_remember (hadd : w.add site kind length payload = (.ok offset, w'))
    (hnew : w.placed[k]? = none) :
    Grows site w { w' with placed := w'.placed.insert k offset } := by
  obtain ⟨-, -, -, hplaced⟩ := eq_of_add hadd
  have hgrows := grows_of_add hadd
  refine ⟨hgrows.cursor_le, hgrows.get_eq, ?_⟩
  intro k' offset' hplace
  have hne : k ≠ k' := by
    rintro rfl
    rw [hnew] at hplace
    cases hplace
  rw [getElem?_insert_place, if_neg hne, hplaced, hplace]

section

variable {inner : List Value}

/-- The places once the place of an added node is remembered. -/
theorem place_of_add (hadd : w'.add site kind length payload = (.ok offset, w'')) (k k' : Nat) :
    (w''.placed.insert k offset)[k']? = if k = k' then some offset else w'.placed[k']? := by
  rw [getElem?_insert_place, (eq_of_add hadd).2.2.2]

/-- An added node takes room, so its place is in front of the new cursor. -/
theorem lt_cursor_of_add (hadd : w'.add site kind length payload = (.ok offset, w'')) :
    w'.cursor < w''.cursor := by
  obtain ⟨-, -, hcursor, -⟩ := eq_of_add hadd
  rw [hcursor, headerSize]
  omega

/-- A place that is remembered is a new one: all the others are in front of the old cursor. -/
theorem Kept.injective_insert (h : Kept root site w')
    (hadd : w'.add site kind length payload = (.ok offset, w'')) {k₁ k₂ offset' : Nat}
    (h₁ : (w''.placed.insert k offset)[k₁]? = some offset')
    (h₂ : (w''.placed.insert k offset)[k₂]? = some offset') : k₁ = k₂ := by
  obtain ⟨hoffset, -⟩ := eq_of_add hadd
  have hold : ∀ k', w'.placed[k']? = some offset' → offset ≠ offset' := fun k' hplace =>
    hoffset ▸ (h.lt_cursor k' offset' hplace).ne'
  rw [place_of_add hadd] at h₁ h₂
  split at h₁ <;> split at h₂
  · next heq₁ heq₂ => rw [← heq₁, ← heq₂]
  · exact absurd (Option.some.inj h₁) (hold k₂ h₂)
  · exact absurd (Option.some.inj h₂) (hold k₁ h₁)
  · exact h.injective k₁ k₂ offset' h₁ h₂

/-- Once the place of a node is remembered, the node and everything inside it are placed. -/
theorem Builds.complete_insert (hk : v.shareKey? = some k) (hparts : v.parts = v :: inner)
    (hinner : ∀ p ∈ inner, p.shareKey? ≠ some k) (h : Builds root site inner w w')
    (hnew : w.placed[k]? = none) (hadd : w'.add site kind length payload = (.ok offset, w'')) :
    ∀ p ∈ v.parts, ∀ k', p.shareKey? = some k' →
      ∃ offset' : Nat, (w''.placed.insert k offset)[k']? = some offset' := by
  intro p hp k' hpk
  rw [hparts] at hp
  rcases List.mem_cons.1 hp with rfl | hp
  · rw [hk] at hpk
    exact ⟨offset, by rw [place_of_add hadd, if_pos (Option.some.inj hpk)]⟩
  · obtain ⟨offset', hplace⟩ := h.complete p hp k' hpk
    exact ⟨offset', (grows_of_remember hadd (h.unplaced hinner hnew)).placed k' offset' hplace⟩

/-- The invariant holds once the place of a node is remembered. -/
theorem Builds.kept_insert (hroot : root.Coherent) (hv : v ∈ root.parts)
    (hk : v.shareKey? = some k) (hparts : v.parts = v :: inner)
    (hinner : ∀ p ∈ inner, p.shareKey? ≠ some k) (h : Builds root site inner w w')
    (hnew : w.placed[k]? = none) (hadd : w'.add site kind length payload = (.ok offset, w''))
    (hdenotes : Denotes site { w'' with placed := w''.placed.insert k offset } offset v) :
    Kept root site { w'' with placed := w''.placed.insert k offset } := by
  obtain ⟨hoffset, -, hcursor, -⟩ := eq_of_add hadd
  have hmore := lt_cursor_of_add hadd
  have hgrows := grows_of_remember hadd (h.unplaced hinner hnew)
  have hcomplete := h.complete_insert hk hparts hinner hnew hadd
  have hget := place_of_add hadd k
  constructor
  case aligned =>
    have haligned := h.kept.aligned
    have hpad := padded_mod payload.length
    rw [hcursor, headerSize]
    omega
  case within =>
    have hwithin := within_of_add hadd
    exact hwithin
  case lt_cursor =>
    intro k' offset' hk'
    rw [hget] at hk'
    split at hk'
    · rw [← Option.some.inj hk', hoffset]
      exact hmore
    · exact (h.kept.lt_cursor k' offset' hk').trans hmore
  case injective =>
    intro k₁ k₂ offset' h₁ h₂
    exact h.kept.injective_insert hadd h₁ h₂
  case closed =>
    intro p hp k' offset' hpk hk' q hq k'' hqk
    rw [hget] at hk'
    split at hk'
    · next heq =>
      rw [← heq] at hpk
      -- another occurrence of the node: it is the same value
      rw [hroot.eq_of_shareKey hp hv hpk hk] at hq
      exact hcomplete q hq k'' hqk
    · obtain ⟨place, hplace⟩ := h.kept.closed p hp k' offset' hpk hk' q hq k'' hqk
      exact ⟨place, hgrows.placed k'' place hplace⟩
  case denotes =>
    intro p hp k' offset' hpk hk'
    rw [hget] at hk'
    split at hk'
    · next heq =>
      rw [← heq] at hpk
      rw [hroot.eq_of_shareKey hp hv hpk hk, ← Option.some.inj hk']
      exact hdenotes
    · exact (h.kept.denotes p hp k' offset' hpk hk').grow hgrows

/-- A shared node is added once all nodes inside it are there, and its place is remembered. -/
theorem Builds.remember (hroot : root.Coherent) (hv : v ∈ root.parts)
    (hk : v.shareKey? = some k) (hparts : v.parts = v :: inner)
    (hinner : ∀ p ∈ inner, p.shareKey? ≠ some k) (h : Builds root site inner w w')
    (hnew : w.placed[k]? = none) (hadd : w'.add site kind length payload = (.ok offset, w''))
    (hdenotes : Denotes site { w'' with placed := w''.placed.insert k offset } offset v) :
    Builds root site v.parts w { w'' with placed := w''.placed.insert k offset } where
  kept := h.kept_insert hroot hv hk hparts hinner hnew hadd hdenotes
  grows := h.grows.trans (grows_of_remember hadd (h.unplaced hinner hnew))
  complete := h.complete_insert hk hparts hinner hnew hadd
  only k' offset' hk' := by
    rw [place_of_add hadd] at hk'
    split at hk'
    · next heq => exact .inr ⟨v, Value.self_mem_parts v, heq ▸ hk⟩
    · rcases h.only k' offset' hk' with hold | ⟨p, hp, hpk⟩
      · exact .inl hold
      · refine .inr ⟨p, ?_, hpk⟩
        rw [hparts]
        exact List.mem_cons_of_mem _ hp

end

/-! ## How a value comes to be written -/

section

variable {kind : SeqKind} {dictKind : DictKind} {node : NodeId} {s key : String}
  {items : List Value} {entries : List (String × Value)} {offsets : List Nat}

/-- A text was met before, or is added now. -/
theorem put_text_eq_ok (h : Writer.put site (.text node s) w = (.ok offset, w')) :
    (w.placed[shareKey node .text]? = some offset ∧ w' = w) ∨
      w.placed[shareKey node .text]? = none ∧
        Writer.remember (shareKey node .text) (w.addText site s) = (.ok offset, w') := by
  rw [Writer.put] at h
  split at h
  · next found hplaced =>
    obtain ⟨hoffset, hw⟩ := Prod.mk.inj h
    rw [hplaced, Except.ok.inj hoffset]
    exact .inl ⟨rfl, hw.symm⟩
  · next hnew => exact .inr ⟨hnew, h⟩

/-- A sequence was met before, or is added now behind its items. -/
theorem put_seq_eq_ok (h : Writer.put site (.seq kind node items) w = (.ok offset, w')) :
    (w.placed[shareKey node (.seq kind)]? = some offset ∧ w' = w) ∨
      w.placed[shareKey node (.seq kind)]? = none ∧ ∃ offsets w₁,
        Writer.putItems site items w = (.ok offsets, w₁) ∧
        Writer.remember (shareKey node (.seq kind))
          (w₁.add site (.seq kind) items.length (Writer.references offsets)) =
            (.ok offset, w') := by
  rw [Writer.put] at h
  split at h
  · next found hplaced =>
    obtain ⟨hoffset, hw⟩ := Prod.mk.inj h
    rw [hplaced, Except.ok.inj hoffset]
    exact .inl ⟨rfl, hw.symm⟩
  · next hnew =>
    split at h
    · cases (Prod.mk.inj h).1
    · next offsets w₁ hitems => exact .inr ⟨hnew, offsets, w₁, hitems, h⟩

/-- A keyed container was met before, or is added now behind its entries. -/
theorem put_dict_eq_ok (h : Writer.put site (.dict dictKind node entries) w = (.ok offset, w')) :
    (w.placed[shareKey node (.dict dictKind)]? = some offset ∧ w' = w) ∨
      w.placed[shareKey node (.dict dictKind)]? = none ∧ ∃ offsets w₁,
        Writer.putEntries site entries w = (.ok offsets, w₁) ∧
        Writer.remember (shareKey node (.dict dictKind))
          (w₁.add site (.dict dictKind) entries.length (Writer.references offsets)) =
            (.ok offset, w') := by
  rw [Writer.put] at h
  split at h
  · next found hplaced =>
    obtain ⟨hoffset, hw⟩ := Prod.mk.inj h
    rw [hplaced, Except.ok.inj hoffset]
    exact .inl ⟨rfl, hw.symm⟩
  · next hnew =>
    split at h
    · cases (Prod.mk.inj h).1
    · next offsets w₁ hentries => exact .inr ⟨hnew, offsets, w₁, hentries, h⟩

/-- The first item is written in front of the others. -/
theorem putItems_cons_eq_ok (h : Writer.putItems site (v :: items) w = (.ok offsets, w')) :
    ∃ offset w₁ rest, Writer.put site v w = (.ok offset, w₁) ∧
      Writer.putItems site items w₁ = (.ok rest, w') ∧ offsets = offset :: rest := by
  rw [Writer.putItems] at h
  split at h
  · cases (Prod.mk.inj h).1
  · next offset w₁ hfirst =>
    split at h
    · cases (Prod.mk.inj h).1
    · next rest w₂ hrest =>
      obtain ⟨hoffsets, hw⟩ := Prod.mk.inj h
      rw [← hw, ← Except.ok.inj hoffsets]
      exact ⟨offset, w₁, rest, hfirst, hrest, rfl⟩

/-- The first key is written in front of the first value, and that in front of the other entries. -/
theorem putEntries_cons_eq_ok
    (h : Writer.putEntries site ((key, v) :: entries) w = (.ok offsets, w')) :
    ∃ keyOffset w₁ offset w₂ rest, w.addText site key = (.ok keyOffset, w₁) ∧
      Writer.put site v w₁ = (.ok offset, w₂) ∧
      Writer.putEntries site entries w₂ = (.ok rest, w') ∧
      offsets = keyOffset :: offset :: rest := by
  rw [Writer.putEntries] at h
  split at h
  · cases (Prod.mk.inj h).1
  · next keyOffset w₁ hkey =>
    split at h
    · cases (Prod.mk.inj h).1
    · next offset w₂ hfirst =>
      split at h
      · cases (Prod.mk.inj h).1
      · next rest w₃ hrest =>
        obtain ⟨hoffsets, hw⟩ := Prod.mk.inj h
        rw [← hw, ← Except.ok.inj hoffsets]
        exact ⟨keyOffset, w₁, offset, w₂, rest, hkey, hfirst, hrest, rfl⟩

end

/-- What is remembered is the place where the node was added. -/
theorem eq_of_remember {answer : Except Fault Nat × Writer}
    (h : Writer.remember k answer = (.ok offset, w')) :
    ∃ w, answer = (.ok offset, w) ∧ w' = { w with placed := w.placed.insert k offset } := by
  obtain ⟨answer, w⟩ := answer
  cases answer with
  | error fault => cases (Prod.mk.inj h).1
  | ok found =>
    obtain ⟨hoffset, hw⟩ := Prod.mk.inj h
    obtain rfl := Except.ok.inj hoffset
    exact ⟨w, rfl, hw.symm⟩

/-! ## Writing a value -/

/-- What writing a value comes to: the invariant is kept, and the value is denoted where it was
written. -/
structure Puts (root : Value) (site : Site) (v : Value) (w w' : Writer) (offset : Nat) : Prop where
  builds : Builds root site v.parts w w'
  lt_cursor : offset < w'.cursor
  denotes : Denotes site w' offset v

/-- A scalar is written as a node of its own. -/
theorem Kept.puts_of_add (h : Kept root site w)
    (hadd : w.add site kind length payload = (.ok offset, w')) (hparts : v.parts = [v])
    (hk : v.shareKey? = none) (hrelabel : ∀ f, v.relabel f = v)
    (hread : ∀ (a : Arena) node, Written a offset kind length payload →
      a.valueAt node offset = .ok v) : Puts root site v w w' offset := by
  obtain ⟨hoffset, -, hcursor, -⟩ := eq_of_add hadd
  refine ⟨h.builds_of_add hadd ?_, ?_, ?_⟩
  · intro p hp
    rw [hparts] at hp
    rw [List.mem_singleton.1 hp, hk]
  · rw [hoffset, hcursor, headerSize]
    omega
  · intro a place hlater node
    rw [hrelabel]
    exact hread a node (written_of_add hadd h.aligned hlater.toReads)

/-- A node that was met before is where it was written then. -/
theorem Kept.puts_of_placed (h : Kept root site w) (hv : v ∈ root.parts)
    (hk : v.shareKey? = some k) (hplaced : w.placed[k]? = some offset) :
    Puts root site v w w offset :=
  ⟨h.builds_of_placed hv hk hplaced, h.lt_cursor k offset hplaced,
    h.denotes v hv k offset hk hplaced⟩

/-- A shared node is written behind what is inside it. -/
theorem Builds.puts_of_remember {inner : List Value} (hroot : root.Coherent)
    (hv : v ∈ root.parts) (hk : v.shareKey? = some k) (hparts : v.parts = v :: inner)
    (hinner : ∀ p ∈ inner, p.shareKey? ≠ some k) (h : Builds root site inner w w')
    (hnew : w.placed[k]? = none)
    (hput : Writer.remember k (w'.add site kind length payload) = (.ok offset, w''))
    (hread : ∀ a place, Later site w' a place → place k = offset → w'.cursor = offset →
      Written a offset kind length payload → ∀ node : NodeId,
        a.valueAt node offset = .ok (v.relabel fun k => node + place k)) :
    Puts root site v w w'' offset := by
  obtain ⟨added, hadd, rfl⟩ := eq_of_remember hput
  obtain ⟨hoffset, -, hcursor, -⟩ := eq_of_add hadd
  have hgrows := grows_of_remember hadd (h.unplaced hinner hnew)
  have hdenotes : Denotes site { added with placed := added.placed.insert k offset } offset v := by
    intro a place hlater node
    have hreads : Reads site added a :=
      ⟨hlater.start_eq, hlater.cursor_le, hlater.used_lt, hlater.get_eq⟩
    refine hread a place (hgrows.later hlater) (hlater.place_eq k offset ?_) hoffset.symm
      (written_of_add hadd h.kept.aligned hreads) node
    rw [getElem?_insert_place, if_pos rfl]
  refine ⟨h.remember hroot hv hk hparts hinner hnew hadd hdenotes, ?_, hdenotes⟩
  show offset < added.cursor
  rw [hoffset, hcursor, headerSize]
  omega

/-- A sequence is written behind its items, so the references to them lead backwards. -/
theorem Builds.puts_seq {kind : SeqKind} {node : NodeId} {items : List Value}
    {offsets : List Nat} (hroot : root.Coherent) (hv : .seq kind node items ∈ root.parts)
    (hlength : items.length < UInt32.size) (h : Builds root site (Value.itemParts items) w w')
    (hwritten : List.Forall₂ (fun offset v => offset < w'.cursor ∧ Denotes site w' offset v)
      offsets items)
    (hnew : w.placed[shareKey node (.seq kind)]? = none)
    (hput : Writer.remember (shareKey node (.seq kind))
      (w'.add site (.seq kind) items.length (Writer.references offsets)) = (.ok offset, w'')) :
    Puts root site (.seq kind node items) w w'' offset := by
  obtain ⟨hbefore, hdenotes⟩ := (List.forall₂_and_left _ _).1 hwritten
  refine h.puts_of_remember hroot hv rfl rfl (fun p hp => hroot.shareKey_ne_of_mem_items hv hp)
    hnew hput ?_
  intro a place hlater hplace hcursor hwritten node
  rw [hcursor] at hbefore
  have hlt : offset < UInt64.size := hcursor ▸ hlater.cursor_le.trans_lt hlater.used_lt
  have hsame : (Value.relabelItems (fun k => node + place k) items).length = items.length := by
    rw [Value.relabelItems_eq_map, List.length_map]
  rw [← hsame] at hwritten
  rw [hwritten.valueAt_seq (hsame ▸ hlength) hlt hbefore, Value.relabel, hplace]
  rw [Value.relabelItems_eq_map, List.forall₂_map_right_iff]
  exact hdenotes.imp fun reference v hdenotes => hdenotes a place hlater node

/-- A dictionary is written behind its keys and values, so the references to them lead backwards. -/
theorem Builds.puts_dict {kind : DictKind} {node : NodeId} {entries : List (String × Value)}
    {pairs : List (Nat × Nat)} (hroot : root.Coherent) (hv : .dict kind node entries ∈ root.parts)
    (hlength : entries.length < UInt32.size)
    (hordered : Value.EntriesOrdered none entries)
    (h : Builds root site (Value.entryParts entries) w w')
    (hwritten : List.Forall₂ (fun pair entry => (pair.1 < w'.cursor ∧ pair.2 < w'.cursor) ∧
      DenotesKey site w' pair.1 entry.1 ∧ Denotes site w' pair.2 entry.2) pairs entries)
    (hnew : w.placed[shareKey node (.dict kind)]? = none)
    (hput : Writer.remember (shareKey node (.dict kind))
      (w'.add site (.dict kind) entries.length (Writer.references (pairReferences pairs))) =
        (.ok offset, w'')) :
    Puts root site (.dict kind node entries) w w'' offset := by
  obtain ⟨hbefore, hdenotes⟩ := (List.forall₂_and_left _ _).1 hwritten
  refine h.puts_of_remember hroot hv rfl rfl (fun p hp => hroot.shareKey_ne_of_mem_entries hv hp)
    hnew hput ?_
  intro a place hlater hplace hcursor hwritten node
  rw [hcursor] at hbefore
  have hlt : offset < UInt64.size := hcursor ▸ hlater.cursor_le.trans_lt hlater.used_lt
  have hsame : (Value.relabelEntries (fun k => node + place k) entries).length =
      entries.length := by
    rw [Value.relabelEntries_eq_map, List.length_map]
  rw [← hsame] at hwritten
  rw [hwritten.valueAt_dict (hsame ▸ hlength) hlt hbefore, Value.relabel, hplace]
  · rw [Value.relabelEntries_eq_map, List.forall₂_map_right_iff]
    exact hdenotes.imp fun pair entry hdenotes =>
      ⟨hdenotes.1 a place hlater, hdenotes.2 a place hlater node⟩
  · rw [Value.relabelEntries_eq_map, List.pairwise_map]
    exact (Value.pairwise_of_entriesOrdered hordered).2

/-- A key is written as a text node that is never shared. -/
theorem Kept.key_of_addText (h : Kept root site w) {key : String}
    (hfits : Utf8.size key < UInt32.size) (hadd : w.addText site key = (.ok offset, w')) :
    offset < w'.cursor ∧ DenotesKey site w' offset key ∧ Builds root site [] w w' := by
  obtain ⟨hoffset, -, hcursor, -⟩ := eq_of_add hadd
  refine ⟨?_, ?_, h.builds_of_add hadd fun p hp => by cases hp⟩
  · rw [hoffset, hcursor, headerSize]
    omega
  · intro a place hlater n hn
    exact (written_of_add hadd h.aligned hlater.toReads).keyAt_eq hn hfits

mutual

/-- Writing a part of a coherent value keeps the invariant, and the part is denoted where it was
written. -/
theorem put_spec (hroot : root.Coherent) (v : Value) {w w' : Writer} {offset : Nat}
    (hv : v ∈ root.parts) (hordered : v.Ordered) (hfits : v.Fits) (h : Kept root site w)
    (hput : Writer.put site v w = (.ok offset, w')) :
    Puts root site v w w' offset := by
  cases v with
  | null =>
    simp only [Writer.put] at hput
    exact h.puts_of_add hput rfl rfl (fun _ => rfl) fun a node hwritten => hwritten.valueAt_null
  | bool b =>
    simp only [Writer.put] at hput
    exact h.puts_of_add hput rfl rfl (fun _ => rfl) fun a node hwritten => hwritten.valueAt_bool b
  | integer kind bits =>
    simp only [Writer.put] at hput
    exact h.puts_of_add hput rfl rfl (fun _ => rfl) fun a node hwritten =>
      hwritten.valueAt_integer kind bits
  | float32 bits =>
    simp only [Writer.put] at hput
    exact h.puts_of_add hput rfl rfl (fun _ => rfl) fun a node hwritten =>
      hwritten.valueAt_float32 bits
  | float64 bits =>
    simp only [Writer.put] at hput
    exact h.puts_of_add hput rfl rfl (fun _ => rfl) fun a node hwritten =>
      hwritten.valueAt_float64 bits
  | floats shape components =>
    simp only [Writer.put] at hput
    exact h.puts_of_add hput rfl rfl (fun _ => rfl) fun a node hwritten =>
      hwritten.valueAt_floats shape components
  | text node s =>
    rcases put_text_eq_ok hput with ⟨hplaced, rfl⟩ | ⟨hnew, hput⟩
    · exact h.puts_of_placed hv rfl hplaced
    · -- a text has nothing inside that was written before it
      refine h.builds_nil.puts_of_remember hroot hv rfl rfl (fun p hp => by cases hp) hnew hput ?_
      intro a place hlater hplace hcursor hwritten node
      rw [hwritten.valueAt_text hfits, Value.relabel, hplace]
  | seq kind node items =>
    rcases put_seq_eq_ok hput with ⟨hplaced, rfl⟩ | ⟨hnew, offsets, w₁, hitems, hput⟩
    · exact h.puts_of_placed hv rfl hplaced
    · have hparts : ∀ p ∈ Value.itemParts items, p ∈ root.parts := fun p hp =>
        Value.parts_trans root hv (List.mem_cons_of_mem _ hp)
      obtain ⟨hbuilds, hwritten⟩ := putItems_spec hroot items hparts hordered hfits.2 h hitems
      exact hbuilds.puts_seq hroot hv hfits.1 hwritten hnew hput
  | dict kind node entries =>
    rcases put_dict_eq_ok hput with ⟨hplaced, rfl⟩ | ⟨hnew, offsets, w₁, hentries, hput⟩
    · exact h.puts_of_placed hv rfl hplaced
    · have hparts : ∀ p ∈ Value.entryParts entries, p ∈ root.parts := fun p hp =>
        Value.parts_trans root hv (List.mem_cons_of_mem _ hp)
      obtain ⟨pairs, rfl, hbuilds, hwritten⟩ :=
        putEntries_spec hroot entries hparts hordered hfits.2 h hentries
      exact hbuilds.puts_dict hroot hv hfits.1 hordered hwritten hnew hput

/-- Writing items keeps the invariant, and each is denoted where it was written. -/
theorem putItems_spec (hroot : root.Coherent) (items : List Value) {w w' : Writer}
    (hparts : ∀ p ∈ Value.itemParts items, p ∈ root.parts) (hordered : Value.ItemsOrdered items)
    (hfits : Value.ItemsFit items) (h : Kept root site w) {offsets : List Nat}
    (hput : Writer.putItems site items w = (.ok offsets, w')) :
    Builds root site (Value.itemParts items) w w' ∧
      List.Forall₂ (fun offset v => offset < w'.cursor ∧ Denotes site w' offset v)
        offsets items := by
  cases items with
  | nil =>
    rw [Writer.putItems] at hput
    obtain ⟨hoffsets, hw⟩ := Prod.mk.inj hput
    rw [← hw, ← Except.ok.inj hoffsets]
    exact ⟨h.builds_nil, List.Forall₂.nil⟩
  | cons v items =>
    rw [Value.ItemsOrdered] at hordered
    rw [Value.ItemsFit] at hfits
    obtain ⟨offset, w₁, rest, hfirst, hrest, rfl⟩ := putItems_cons_eq_ok hput
    have hputs := put_spec hroot v (hparts v (List.mem_append_left _ v.self_mem_parts))
      hordered.1 hfits.1 h hfirst
    obtain ⟨hbuilds, hall⟩ := putItems_spec hroot items
      (fun p hp => hparts p (List.mem_append_right _ hp)) hordered.2 hfits.2 hputs.builds.kept hrest
    exact ⟨hputs.builds.append hbuilds, List.Forall₂.cons
      ⟨hputs.lt_cursor.trans_le hbuilds.grows.cursor_le, hputs.denotes.grow hbuilds.grows⟩ hall⟩

/-- Writing entries keeps the invariant, and the key and the value of each are denoted where they
were written. -/
theorem putEntries_spec (hroot : root.Coherent) (entries : List (String × Value))
    {last : Option String} {w w' : Writer} (hparts : ∀ p ∈ Value.entryParts entries, p ∈ root.parts)
    (hordered : Value.EntriesOrdered last entries) (hfits : Value.EntriesFit entries)
    (h : Kept root site w) {offsets : List Nat}
    (hput : Writer.putEntries site entries w = (.ok offsets, w')) :
    ∃ pairs, offsets = pairReferences pairs ∧
      Builds root site (Value.entryParts entries) w w' ∧
      List.Forall₂ (fun pair entry => (pair.1 < w'.cursor ∧ pair.2 < w'.cursor) ∧
        DenotesKey site w' pair.1 entry.1 ∧ Denotes site w' pair.2 entry.2) pairs entries := by
  cases entries with
  | nil =>
    rw [Writer.putEntries] at hput
    obtain ⟨hoffsets, hw⟩ := Prod.mk.inj hput
    rw [← hw, ← Except.ok.inj hoffsets]
    exact ⟨[], rfl, h.builds_nil, List.Forall₂.nil⟩
  | cons entry entries =>
    obtain ⟨key, v⟩ := entry
    rw [Value.EntriesOrdered] at hordered
    rw [Value.EntriesFit] at hfits
    -- key, value and the other entries, in this order
    obtain ⟨keyOffset, w₁, offset, w₂, rest, hkey, hfirst, hrest, rfl⟩ := putEntries_cons_eq_ok hput
    obtain ⟨hbefore, hdenotes, hadded⟩ := h.key_of_addText hfits.1 hkey
    have hputs := put_spec hroot v (hparts v (List.mem_append_left _ v.self_mem_parts))
      hordered.2.1 hfits.2.1 hadded.kept hfirst
    obtain ⟨pairs, hpairs, hbuilds, hall⟩ := putEntries_spec hroot entries
      (fun p hp => hparts p (List.mem_append_right _ hp)) hordered.2.2 hfits.2.2
      hputs.builds.kept hrest
    have hgrows := hputs.builds.grows.trans hbuilds.grows
    refine ⟨(keyOffset, offset) :: pairs, by rw [hpairs]; rfl,
      hadded.append (hputs.builds.append hbuilds), List.Forall₂.cons ⟨⟨?_, ?_⟩, ?_, ?_⟩ hall⟩
    · exact hbefore.trans_le hgrows.cursor_le
    · exact hputs.lt_cursor.trans_le hbuilds.grows.cursor_le
    · exact hdenotes.grow hgrows
    · exact hputs.denotes.grow hbuilds.grows

end

end SharedExchange.Arena
