import SharedExchange.Proofs.Arena.Stepping
import SharedExchange.Proofs.Value.Comparing
import SharedExchange.Value.Edit

/-! # Editing at the end of a path

`updateIn` follows a path down and rebuilds the containers on the way back. What one level does is
said once (`exists_replaceChild?`): the copy of a container has a new node, its kind, its keys or
its length, the new child where the path goes on and the old child everywhere else (`CopiedExcept`).
From it, by induction on the path,

* there is an answer exactly when every step of the path leads somewhere (`isSome_updateIn_iff`);
* the answer has the edited value at the end of the path, and above it one copied container for each
  container of the original (`follow_updateIn`, `exists_copied_of_updateIn`);
* no node of the original has changed: whatever of it is seen in the answer is seen as it was
  (`compatible_updateIn`).

How often the edit is applied does not show in its answer. `updateInM` is the same recursion with an
edit that may have effects, which shows that it is applied once or never (`updateInM_eq`). -/

namespace SharedExchange.Value

open Arena (Ascending)

/-! ## One key among entries -/

section

variable {key other : String} {child : Value} {entries : List (String × Value)}

/-- What was set is found. -/
theorem lookup_insertEntry : (insertEntry key child entries).lookup key = some child := by
  induction entries with
  | nil => simp [insertEntry]
  | cons entry entries ih =>
    obtain ⟨first, v⟩ := entry
    rw [insertEntry]
    cases horder : Utf8.order key first with
    | lt => simp
    | eq => simp [Utf8.order_eq_iff.1 horder]
    | gt =>
      have hne : (key == first) = false := by
        rw [beq_eq_false_iff_ne]
        intro heq
        rw [Utf8.order_eq_iff.2 heq] at horder
        cases horder
      rw [List.lookup_cons, hne]
      exact ih

/-- Under every other key there is what was there before. -/
theorem lookup_insertEntry_of_ne (h : other ≠ key) :
    (insertEntry key child entries).lookup other = entries.lookup other := by
  have hne : (other == key) = false := beq_false_of_ne h
  induction entries with
  | nil => simp [insertEntry, h]
  | cons entry entries ih =>
    obtain ⟨first, v⟩ := entry
    rw [insertEntry]
    cases horder : Utf8.order key first with
    | lt => simp only [List.lookup_cons, hne]
    | eq =>
      rw [Utf8.order_eq_iff] at horder
      subst horder
      simp only [List.lookup_cons, hne]
    | gt => simp only [List.lookup_cons, ih]

/-- Setting a key that is there changes no key. -/
theorem keys_insertEntry (hascending : Ascending entries) (h : (entries.lookup key).isSome) :
    (insertEntry key child entries).map Prod.fst = entries.map Prod.fst := by
  induction entries with
  | nil => cases h
  | cons entry entries ih =>
    obtain ⟨first, v⟩ := entry
    obtain ⟨hfirst, hrest⟩ := List.pairwise_cons.1 hascending
    obtain ⟨old, hold⟩ := Option.isSome_iff_exists.1 h
    obtain ⟨front, back, heq, -⟩ := List.lookup_eq_some_iff.1 hold
    have hmem : (key, old) ∈ (first, v) :: entries :=
      heq ▸ List.mem_append_right _ List.mem_cons_self
    rw [insertEntry]
    cases horder : Utf8.order key first with
    | lt =>
      -- a key in front of the first is not among the keys
      have hself : Utf8.order key key = .lt := by
        rcases List.mem_cons.1 hmem with hhead | htail
        · rwa [← (Prod.mk.inj hhead).1] at horder
        · exact Utf8.order_trans horder (hfirst _ htail)
      rw [Utf8.order_eq_iff.2 rfl] at hself
      cases hself
    | eq => rfl
    | gt =>
      have hne : (key == first) = false := by
        rw [beq_eq_false_iff_ne]
        intro heq
        rw [Utf8.order_eq_iff.2 heq] at horder
        cases horder
      rw [List.lookup_cons, hne] at h
      rw [List.map_cons, List.map_cons, ih hrest h]

/-- An entry after an insertion is the inserted one or an old one. -/
theorem mem_insertEntry {entry : String × Value} (h : entry ∈ insertEntry key child entries) :
    entry = (key, child) ∨ entry ∈ entries := by
  induction entries with
  | nil => exact .inl (List.mem_singleton.1 h)
  | cons first entries ih =>
    obtain ⟨key', v⟩ := first
    rw [insertEntry] at h
    cases horder : Utf8.order key key' with
    | lt =>
      rw [horder] at h
      exact List.mem_cons.1 h
    | eq =>
      rw [horder] at h
      rcases List.mem_cons.1 h with rfl | h
      · rw [Utf8.order_eq_iff.1 horder]
        exact .inl rfl
      · exact .inr (List.mem_cons_of_mem _ h)
    | gt =>
      rw [horder] at h
      rcases List.mem_cons.1 h with rfl | h
      · exact .inr List.mem_cons_self
      · exact (ih h).imp_right (List.mem_cons_of_mem _)

/-- Ascending keys stay so when a key is set, whether it was there or not. -/
theorem ascending_insertEntry (h : Ascending entries) :
    Ascending (insertEntry key child entries) := by
  induction entries with
  | nil => exact List.pairwise_singleton ..
  | cons first entries ih =>
    obtain ⟨key', v⟩ := first
    obtain ⟨hfirst, hrest⟩ := List.pairwise_cons.1 h
    rw [insertEntry]
    cases horder : Utf8.order key key' with
    | lt =>
      refine List.pairwise_cons.2 ⟨fun entry hentry => ?_, h⟩
      rcases List.mem_cons.1 hentry with rfl | hentry
      · exact horder
      · exact Utf8.order_trans horder (hfirst entry hentry)
    | eq => exact List.pairwise_cons.2 ⟨hfirst, hrest⟩
    | gt =>
      refine List.pairwise_cons.2 ⟨fun entry hentry => ?_, ih hrest⟩
      rcases mem_insertEntry hentry with rfl | hentry
      · rw [← Utf8.order_swap, horder]
        rfl
      · exact hfirst entry hentry

end

/-! ## Order inside containers -/

/-- Items are ordered when each of them is. -/
theorem itemsOrdered_iff {items : List Value} : ItemsOrdered items ↔ ∀ v ∈ items, v.Ordered := by
  refine ⟨fun h v => ordered_of_mem_items h, fun h => ?_⟩
  induction items with
  | nil => trivial
  | cons v items ih =>
    exact ⟨h v List.mem_cons_self, ih fun v hv => h v (List.mem_cons_of_mem _ hv)⟩

/-- Entries are ordered when their keys ascend and each of their values is. -/
theorem entriesOrdered_iff {entries : List (String × Value)} :
    EntriesOrdered none entries ↔ Ascending entries ∧ ∀ entry ∈ entries, entry.2.Ordered := by
  refine ⟨fun h => ⟨(pairwise_of_entriesOrdered h).2, fun entry => ordered_of_mem_entries h⟩, ?_⟩
  -- behind a first key the others have to come after it
  have hbehind : ∀ (last : Option String) (entries : List (String × Value)),
      (∀ earlier ∈ last, ∀ entry ∈ entries, Utf8.order earlier entry.1 = .lt) →
      Ascending entries → (∀ entry ∈ entries, entry.2.Ordered) → EntriesOrdered last entries := by
    intro last entries hlast hascending hvalues
    induction entries generalizing last with
    | nil => trivial
    | cons entry entries ih =>
      obtain ⟨hfirst, hrest⟩ := List.pairwise_cons.1 hascending
      refine ⟨fun earlier hearlier => hlast earlier hearlier entry List.mem_cons_self,
        hvalues entry List.mem_cons_self, ih (some entry.1) ?_ hrest ?_⟩
      · rintro earlier ⟨⟩ later hlater
        exact hfirst later hlater
      · exact fun later hlater => hvalues later (List.mem_cons_of_mem _ hlater)
  exact fun ⟨hascending, hvalues⟩ => hbehind none entries (by simp) hascending hvalues

/-! ## One step of a path -/

/-- A text without the plus sign in front of it, if there is one. -/
def unsigned : List Char → List Char
  | '+' :: rest => rest
  | characters => characters

/-- What is left of a text without the plus sign, if that is no such sign again. -/
theorem unsigned_eq_iff {characters digits : List Char} (hdigits : ∀ c ∈ digits, c.isDigit) :
    unsigned characters = digits ↔ characters = digits ∨ characters = '+' :: digits := by
  constructor
  · rintro rfl
    unfold unsigned
    split
    · exact .inr rfl
    · exact .inl rfl
  · rintro (rfl | rfl)
    · unfold unsigned
      split
      · exact absurd (hdigits '+' List.mem_cons_self) (by decide)
      · rfl
    · rfl

/-- A step of a path is a position when it is a decimal number of 64 bits, with at most a plus sign
in front. -/
theorem position?_eq_some_iff {segment : String} {i : Nat} : position? segment = some i ↔
    i < UInt64.size ∧ ∃ digits, digits ≠ [] ∧ (∀ c ∈ digits, c.isDigit) ∧
      (segment.toList = digits ∨ segment.toList = '+' :: digits) ∧
      Nat.ofDigitChars 10 digits 0 = i := by
  have hposition : position? segment =
      if (unsigned segment.toList).isEmpty || !(unsigned segment.toList).all Char.isDigit then none
      else if Nat.ofDigitChars 10 (unsigned segment.toList) 0 < UInt64.size then
        some (Nat.ofDigitChars 10 (unsigned segment.toList) 0)
      else none := rfl
  have hgood : ∀ digits : List Char, ¬(digits.isEmpty || !digits.all Char.isDigit) = true ↔
      digits ≠ [] ∧ ∀ c ∈ digits, c.isDigit := fun digits => by simp
  rw [hposition]
  constructor
  · intro h
    split at h
    · cases h
    · next hnot =>
      obtain ⟨hne, hdigits⟩ := (hgood _).1 hnot
      split at h
      · next hlt =>
        obtain rfl := Option.some.inj h
        exact ⟨hlt, _, hne, hdigits, (unsigned_eq_iff hdigits).1 rfl, rfl⟩
      · cases h
  · rintro ⟨hlt, digits, hne, hdigits, hsegment, rfl⟩
    rw [(unsigned_eq_iff hdigits).2 hsegment, if_neg ((hgood digits).2 ⟨hne, hdigits⟩), if_pos hlt]

/-- The decimal text of a number is a position. -/
theorem position?_repr {i : Nat} (h : i < UInt64.size) : position? i.repr = some i :=
  position?_eq_some_iff.2 ⟨h, Nat.toDigits 10 i, Nat.toDigits_ne_nil,
    fun _ hc => Nat.isDigit_of_mem_toDigits (by decide) (by decide) hc, .inl Nat.toList_repr,
    Nat.ofDigitChars_toDigits (by decide) (by decide)⟩

/-- The keys of a keyed container, in order. -/
def keys (v : Value) : List String := (v.entries?.getD []).map Prod.fst

/-- `copy` is the container `v` once more, as the node `node` and with another child one step
down. -/
structure CopiedExcept (copy v : Value) (segment : String) (node : NodeId) : Prop where
  kind : copy.kind = v.kind
  node : copy.node? = some node
  keys : copy.keys = v.keys
  size : copy.size = v.size
  /-- Under every other key there is the same child. -/
  lookup? : ∀ key, key ≠ segment → copy.lookup? key = v.lookup? key
  /-- At every other position there is the same child. -/
  item? : ∀ i, position? segment ≠ some i → copy.item? i = v.item? i

section

variable {v old new copy : Value} {segment : String} {node : NodeId}

/-- A child is a part. -/
theorem mem_parts_of_child? (h : v.child? segment = some old) : old ∈ v.parts := by
  cases v with
  | seq kind n items =>
    obtain ⟨i, -, hitem⟩ := Option.bind_eq_some_iff.1 h
    exact mem_parts_of_item? hitem
  | dict kind n entries => exact mem_parts_of_lookup? h
  | _ => cases h

/-- Children of ordered values are ordered. -/
theorem Ordered.child (hv : v.Ordered) (h : v.child? segment = some old) : old.Ordered := by
  cases v with
  | seq kind n items =>
    rw [Ordered] at hv
    obtain ⟨i, -, hitem⟩ := Option.bind_eq_some_iff.1 h
    exact ordered_of_mem_items hv (List.mem_of_getElem? hitem)
  | dict kind n entries =>
    rw [Ordered] at hv
    obtain ⟨front, back, heq, -⟩ :=
      List.lookup_eq_some_iff.1 (show entries.lookup segment = _ from h)
    have hentry : (segment, old) ∈ entries := by
      rw [heq]
      exact List.mem_append_right _ List.mem_cons_self
    exact ordered_of_mem_entries hv hentry
  | _ => cases h

/-- Where a step leads to a child, that child can be replaced, in a copy of the container. -/
theorem exists_replaceChild? (hv : v.Ordered) (h : v.child? segment = some old) (new : Value)
    (node : NodeId) :
    ∃ copy, v.replaceChild? node segment new = some copy ∧ copy.child? segment = some new ∧
      CopiedExcept copy v segment node := by
  cases v with
  | seq kind n items =>
    obtain ⟨i, hposition, hitem⟩ := Option.bind_eq_some_iff.1 h
    obtain ⟨hi, -⟩ := List.getElem?_eq_some_iff.1 (show items[i]? = some old from hitem)
    refine ⟨seq kind node (items.set i new), ?_, ?_, ?_⟩
    · rw [replaceChild?, hposition, Option.bind_some, set?, if_pos hi]
    · rw [child?, hposition, Option.bind_some]
      exact List.getElem?_set_self hi
    · refine ⟨rfl, rfl, rfl, List.length_set, fun _ _ => rfl, fun j hj => ?_⟩
      have hne : i ≠ j := fun heq => hj (heq ▸ hposition)
      exact List.getElem?_set_ne hne
  | dict kind n entries =>
    rw [Ordered] at hv
    have hascending : Ascending entries := (pairwise_of_entriesOrdered hv).2
    have hkeys : (insertEntry segment new entries).map Prod.fst = entries.map Prod.fst :=
      keys_insertEntry hascending
        (Option.isSome_of_eq_some (show entries.lookup segment = _ from h))
    refine ⟨dict kind node (insertEntry segment new entries), rfl, lookup_insertEntry, ?_⟩
    refine ⟨rfl, rfl, hkeys, ?_, fun key hkey => lookup_insertEntry_of_ne hkey, fun _ _ => rfl⟩
    simpa [size] using congrArg List.length hkeys
  | _ => cases h

/-- The copy is the node that it was told to be. -/
theorem node?_replaceChild? (h : v.replaceChild? node segment new = some copy) :
    copy.node? = some node := by
  cases v with
  | seq kind n items =>
    obtain ⟨i, -, hset⟩ := Option.bind_eq_some_iff.1 h
    rw [set?] at hset
    split at hset <;> cases hset
    rfl
  | dict kind n entries =>
    cases h
    rfl
  | _ => cases h

/-- Inside the copy there is nothing but itself, the new child and what was inside the container. -/
theorem mem_parts_of_replaceChild? (h : v.replaceChild? node segment new = some copy) {p : Value}
    (hp : p ∈ copy.parts) : p = copy ∨ p ∈ new.parts ∨ p ∈ v.parts := by
  cases v with
  | seq kind n items =>
    obtain ⟨i, -, hset⟩ := Option.bind_eq_some_iff.1 h
    rw [set?] at hset
    split at hset
    · cases hset
      rw [parts] at hp ⊢
      rcases List.mem_cons.1 hp with rfl | hp
      · exact .inl rfl
      · obtain ⟨item, hitem, hinside⟩ := mem_itemParts.1 hp
        rcases List.mem_or_eq_of_mem_set hitem with hitem | rfl
        · exact .inr (.inr (List.mem_cons_of_mem _ (mem_itemParts.2 ⟨item, hitem, hinside⟩)))
        · exact .inr (.inl hinside)
    · cases hset
  | dict kind n entries =>
    cases h
    rw [parts] at hp ⊢
    rcases List.mem_cons.1 hp with rfl | hp
    · exact .inl rfl
    · obtain ⟨entry, hentry, hinside⟩ := mem_entryParts.1 hp
      rcases mem_insertEntry hentry with rfl | hentry
      · exact .inr (.inl hinside)
      · exact .inr (.inr (List.mem_cons_of_mem _ (mem_entryParts.2 ⟨entry, hentry, hinside⟩)))
  | _ => cases h

/-- Setting a key of an ordered value to an ordered one makes an ordered copy. -/
theorem Ordered.insert? {key : String} (hv : v.Ordered) (hnew : new.Ordered)
    (h : v.insert? node key new = some copy) : copy.Ordered := by
  cases v with
  | dict kind n entries =>
    cases h
    rw [Ordered, entriesOrdered_iff] at hv ⊢
    refine ⟨ascending_insertEntry hv.1, fun entry hentry => ?_⟩
    rcases mem_insertEntry hentry with rfl | hentry
    · exact hnew
    · exact hv.2 entry hentry
  | _ => cases h

/-- A sequence with another item is ordered if both were. -/
theorem Ordered.set? {i : Nat} (hv : v.Ordered) (hnew : new.Ordered)
    (h : v.set? node i new = some copy) : copy.Ordered := by
  cases v with
  | seq kind n items =>
    rw [Value.set?] at h
    split at h <;> cases h
    rw [Ordered, itemsOrdered_iff] at hv ⊢
    intro item hitem
    rcases List.mem_or_eq_of_mem_set hitem with hitem | rfl
    · exact hv item hitem
    · exact hnew
  | _ => cases h

/-- Replacing a child of an ordered value by an ordered one makes an ordered copy. -/
theorem Ordered.replaceChild? (hv : v.Ordered) (hnew : new.Ordered)
    (h : v.replaceChild? node segment new = some copy) : copy.Ordered := by
  cases v with
  | seq kind n items =>
    obtain ⟨i, -, hset⟩ := Option.bind_eq_some_iff.1 h
    exact hv.set? hnew hset
  | dict kind n entries => exact hv.insert? hnew h
  | _ => cases h

end

/-! ## The whole path -/

section

variable {v w root : Value} {f : Value → Value} {node : NodeId} {path : List String}

/-- A path leads on from the child to which its first step leads. -/
theorem follow_cons_eq_some {segment : String} :
    v.follow (segment :: path) = some w ↔
      ∃ child, v.child? segment = some child ∧ child.follow path = some w :=
  Option.bind_eq_some_iff

/-- An edit below a step edits the child and puts the edited child into a copy. -/
theorem updateIn_cons_eq_some {segment : String} :
    v.updateIn f node (segment :: path) = some w ↔
      ∃ child, v.child? segment = some child ∧
        ∃ updated, child.updateIn f (node + 1) path = some updated ∧
          v.replaceChild? node segment updated = some w := by
  simp only [updateIn, bind, Option.bind_eq_some_iff]

/-- Where the path leads somewhere, there is an answer, and it has the edited value there. -/
theorem exists_updateIn (hv : v.Ordered) {old : Value} (h : v.follow path = some old)
    (f : Value → Value) (node : NodeId) :
    ∃ w, v.updateIn f node path = some w ∧ w.follow path = some (f old) := by
  induction path generalizing v node with
  | nil =>
    cases h
    exact ⟨f _, rfl, rfl⟩
  | cons segment path ih =>
    obtain ⟨child, hchild, hrest⟩ := follow_cons_eq_some.1 h
    obtain ⟨updated, hupdated, hfollow⟩ := ih (hv.child hchild) hrest (node + 1)
    obtain ⟨w, hreplace, hnew, -⟩ := exists_replaceChild? hv hchild updated node
    exact ⟨w, updateIn_cons_eq_some.2 ⟨child, hchild, updated, hupdated, hreplace⟩,
      follow_cons_eq_some.2 ⟨updated, hnew, hfollow⟩⟩

/-- Where there is an answer, the path leads somewhere. -/
theorem exists_follow_of_updateIn (h : v.updateIn f node path = some w) :
    ∃ old, v.follow path = some old := by
  induction path generalizing v node w with
  | nil => exact ⟨v, rfl⟩
  | cons segment path ih =>
    obtain ⟨child, hchild, updated, hupdated, -⟩ := updateIn_cons_eq_some.1 h
    obtain ⟨old, hold⟩ := ih hupdated
    exact ⟨old, follow_cons_eq_some.2 ⟨child, hchild, hold⟩⟩

/-- There is an answer exactly when every step of the path leads somewhere. -/
theorem isSome_updateIn_iff (hv : v.Ordered) :
    (v.updateIn f node path).isSome ↔ (v.follow path).isSome := by
  rw [Option.isSome_iff_exists, Option.isSome_iff_exists]
  constructor
  · rintro ⟨w, hw⟩
    exact exists_follow_of_updateIn hw
  · rintro ⟨old, hold⟩
    obtain ⟨w, hw, -⟩ := exists_updateIn hv hold f node
    exact ⟨w, hw⟩

/-- The answer has the edited value at the end of the path. -/
theorem follow_updateIn (hv : v.Ordered) (h : v.updateIn f node path = some w) :
    w.follow path = (v.follow path).map f := by
  obtain ⟨old, hold⟩ := exists_follow_of_updateIn h
  obtain ⟨w', hw', hfollow⟩ := exists_updateIn hv hold f node
  cases h.symm.trans hw'
  rw [hfollow, hold, Option.map_some]

/-- In the place of every container that the path leads through there is a copy of it as a new
node, in which only the child on the path is another. -/
theorem exists_copied_of_updateIn {front back : List String} {segment : String} (hv : v.Ordered)
    (h : v.updateIn f node (front ++ segment :: back) = some w) :
    ∃ c copy, v.follow front = some c ∧ w.follow front = some copy ∧
      CopiedExcept copy c segment (node + front.length) := by
  induction front generalizing v node w with
  | nil =>
    obtain ⟨child, hchild, updated, -, hreplace⟩ := updateIn_cons_eq_some.1 h
    obtain ⟨copy, hcopy, -, hcopied⟩ := exists_replaceChild? hv hchild updated node
    cases hreplace.symm.trans hcopy
    exact ⟨v, w, rfl, rfl, hcopied⟩
  | cons first front ih =>
    obtain ⟨child, hchild, updated, hupdated, hreplace⟩ := updateIn_cons_eq_some.1 h
    obtain ⟨copy, hcopy, hnew, -⟩ := exists_replaceChild? hv hchild updated node
    cases hreplace.symm.trans hcopy
    obtain ⟨c, below, hc, hbelow, hcopied⟩ := ih (hv.child hchild) hupdated
    refine ⟨c, below, follow_cons_eq_some.2 ⟨child, hchild, hc⟩,
      follow_cons_eq_some.2 ⟨updated, hnew, hbelow⟩, ?_⟩
    rwa [List.length_cons, Nat.add_comm front.length, ← Nat.add_assoc]

/-- Everything inside the answer is a copy of a container that the path leads through, or inside the
edited value, or inside the original. -/
theorem mem_parts_of_updateIn (hv : v.Ordered) (h : v.updateIn f node path = some w) {p : Value}
    (hp : p ∈ w.parts) :
    (∃ depth, w.follow (path.take depth) = some p ∧ p.node? = some (node + depth) ∧
        depth < path.length) ∨
      (∃ old, v.follow path = some old ∧ p ∈ (f old).parts) ∨ p ∈ v.parts := by
  induction path generalizing v node w with
  | nil =>
    cases h
    exact .inr (.inl ⟨v, rfl, hp⟩)
  | cons segment path ih =>
    obtain ⟨child, hchild, updated, hupdated, hreplace⟩ := updateIn_cons_eq_some.1 h
    obtain ⟨copy, hcopy, hnew, -⟩ := exists_replaceChild? hv hchild updated node
    cases hreplace.symm.trans hcopy
    rcases mem_parts_of_replaceChild? hreplace hp with rfl | hp | hp
    · exact .inl ⟨0, rfl, node?_replaceChild? hreplace, Nat.succ_pos _⟩
    · rcases ih (hv.child hchild) hupdated hp with ⟨depth, hat, hnode, hlt⟩ | ⟨old, hold, hp⟩ | hp
      · refine .inl ⟨depth + 1, follow_cons_eq_some.2 ⟨updated, hnew, hat⟩, ?_,
          Nat.succ_lt_succ hlt⟩
        rw [hnode, Nat.add_assoc, Nat.add_comm 1]
      · exact .inr (.inl ⟨old, follow_cons_eq_some.2 ⟨child, hchild, hold⟩, hp⟩)
      · exact .inr (.inr (parts_trans v (mem_parts_of_child? hchild) hp))
    · exact .inr (.inr hp)

/-! ## Nothing that is there changes -/

/-- What holds of a value made of nodes that are numbered below `next`. -/
structure WellMade (v : Value) (next : NodeId) : Prop where
  ordered : v.Ordered
  coherent : v.Coherent
  below : ∀ p ∈ v.parts, ∀ n ∈ p.node?, n < next

/-- The same node has the same number. -/
theorem node?_eq_of_sameNode {a b : Value} (h : a.sameNode b = true) : a.node? = b.node? := by
  cases a <;> cases b <;> simp_all [sameNode, node?]

/-- What has a number from `next` on is no node inside a value made before. -/
theorem WellMade.sameNode_eq_false {next depth : Nat} {p q : Value} (hv : v.WellMade next)
    (hq : q ∈ v.parts) (hp : p.node? = some (next + depth)) : p.sameNode q = false := by
  rw [Bool.eq_false_iff]
  intro hnode
  have hlt := hv.below q hq _ (node?_eq_of_sameNode hnode ▸ hp)
  exact absurd hlt (Nat.not_lt.2 (Nat.le_add_right _ _))

/-- Wherever a node of the original is seen in the answer, it is seen as it was: the nodes that the
edit makes are new, and what it keeps is inside the original. Only the edited value has to respect
the original by itself. -/
theorem compatible_updateIn (hv : v.WellMade node)
    (hf : ∀ old, v.follow path = some old → (f old).Compatible v)
    (h : v.updateIn f node path = some w) : w.Compatible v := by
  intro p hp q hq hnode
  rcases mem_parts_of_updateIn hv.ordered h hp with ⟨depth, -, hnew, -⟩ | ⟨old, hold, hp⟩ | hp
  · rw [hv.sameNode_eq_false hq hnew] at hnode
    cases hnode
  · exact hf old hold p hp q hq hnode
  · exact hv.coherent p hp q hq hnode

/-- A value that was edited is ordered if it was and the edit keeps order. -/
theorem Ordered.updateIn (hv : v.Ordered)
    (hf : ∀ old, v.follow path = some old → (f old).Ordered)
    (h : v.updateIn f node path = some w) : w.Ordered := by
  induction path generalizing v node w with
  | nil =>
    cases h
    exact hf v rfl
  | cons segment path ih =>
    obtain ⟨child, hchild, updated, hupdated, hreplace⟩ := updateIn_cons_eq_some.1 h
    have hbelow := ih (hv.child hchild)
      (fun old hold => hf old (follow_cons_eq_some.2 ⟨child, hchild, hold⟩)) hupdated
    exact hv.replaceChild? hbelow hreplace

/-- An edit that answers well-made values makes a well-made value of one, so that edits can follow
one another. -/
theorem WellMade.updateIn (hv : v.WellMade node)
    (hf : ∀ old, v.follow path = some old → (f old).WellMade node ∧ (f old).Compatible v)
    (h : v.updateIn f node path = some w) : w.WellMade (node + path.length) := by
  have hparts := fun p hp => mem_parts_of_updateIn hv.ordered h (p := p) hp
  have hcompatible := compatible_updateIn hv (fun old hold => (hf old hold).2) h
  refine ⟨hv.ordered.updateIn (fun old hold => (hf old hold).1.ordered) h, ?_, ?_⟩
  · -- each of the two parts is a copy, a part of what was put in, or a part of the old value
    intro p hp q hq hnode
    rcases hparts q hq with ⟨depth, hat, hnew, -⟩ | ⟨old, hold, hq'⟩ | hq'
    · rcases hparts p hp with ⟨depth', hat', hnew', -⟩ | ⟨old, hold, hp'⟩ | hp'
      · -- copies with one number are at one depth
        have heq := (node?_eq_of_sameNode hnode).symm.trans hnew'
        rw [hnew, Option.some.injEq, Nat.add_left_cancel_iff] at heq
        rw [heq, hat'] at hat
        exact Option.some.inj hat
      · rw [sameNode_comm, (hf old hold).1.sameNode_eq_false hp' hnew] at hnode
        cases hnode
      · rw [sameNode_comm, hv.sameNode_eq_false hp' hnew] at hnode
        cases hnode
    · rcases hparts p hp with ⟨depth', -, hnew', -⟩ | ⟨old', hold', hp'⟩ | hp'
      · rw [(hf old hold).1.sameNode_eq_false hq' hnew'] at hnode
        cases hnode
      · cases hold.symm.trans hold'
        exact (hf old hold).1.coherent p hp' q hq' hnode
      · exact ((hf old hold).2 q hq' p hp' (sameNode_comm p q ▸ hnode)).symm
    · exact hcompatible p hp q hq' hnode
  · intro p hp n hn
    rcases hparts p hp with ⟨depth, -, hnew, hlt⟩ | ⟨old, hold, hp'⟩ | hp'
    · cases hn.symm.trans hnew
      exact Nat.add_lt_add_left hlt node
    · exact Nat.lt_of_lt_of_le ((hf old hold).1.below p hp' n hn) (Nat.le_add_right _ _)
    · exact Nat.lt_of_lt_of_le (hv.below p hp' n hn) (Nat.le_add_right _ _)

end

/-! ## How often the edit is applied -/

/-- `updateIn` with an edit that has effects: the same recursion, in which each use of the edit
shows. -/
def updateInM {m : Type → Type} [Monad m] (f : Value → m Value) :
    (node : NodeId) → (path : List String) → Value → m (Option Value)
  | _, [], v => some <$> f v
  | node, segment :: path, v =>
    match v.child? segment with
    | none => pure none
    | some child => do
      let updated ← child.updateInM f (node + 1) path
      pure (updated.bind fun updated => v.replaceChild? node segment updated)

section

variable {m : Type → Type} [Monad m] [LawfulMonad m] {v : Value} {node : NodeId}
  {path : List String}

/-- Without effects it is `updateIn`. -/
theorem updateInM_pure (f : Value → Value) :
    v.updateInM (m := m) (fun old => pure (f old)) node path = pure (v.updateIn f node path) := by
  induction path generalizing v node with
  | nil => simp [updateInM, updateIn]
  | cons segment path ih =>
    rw [updateInM, updateIn]
    cases v.child? segment with
    | none => rfl
    | some child => simp [ih]

/-- The edit is applied once, to the value at the end of the path, or never; all else follows from
what it answers. -/
theorem updateInM_eq (f : Value → m Value) :
    v.updateInM f node path =
      match v.follow path with
      | none => pure none
      | some old => f old >>= fun new => pure (v.updateIn (fun _ => new) node path) := by
  induction path generalizing v node with
  | nil => simp [updateInM, updateIn, follow]
  | cons segment path ih =>
    rw [updateInM, follow]
    cases hchild : v.child? segment with
    | none => rfl
    | some child =>
      simp only [Option.bind_some, ih]
      cases child.follow path with
      | none => simp
      | some old => simp [updateIn, hchild]

/-- An edit that keeps a record of the values it is applied to. -/
def recorded (f : Value → Value) (old : Value) : StateM (List Value) Value := do
  modify (· ++ [old])
  pure (f old)

/-- The record of an edit has one entry, the value at the end of the path, if there is one there,
and is empty otherwise. -/
theorem run_updateInM_recorded (f : Value → Value) :
    (v.updateInM (recorded f) node path).run [] =
      (v.updateIn f node path, (v.follow path).toList) := by
  have hpure : v.updateInM (m := Id) (fun old => pure (f old)) node path =
      pure (v.updateIn f node path) := updateInM_pure f
  rw [updateInM_eq] at hpure ⊢
  cases hfollow : v.follow path with
  | none =>
    rw [hfollow] at hpure
    exact congrArg (·, []) hpure
  | some old =>
    rw [hfollow] at hpure
    exact congrArg (·, [old]) hpure

end

/-- What an edit at the end of a path does. It is applied once, to the value at the end of the path,
exactly when every step leads somewhere, and only then there is an answer. In the answer the path
leads to the edited value, through new nodes that are copies of the old containers and keep all
children off the path. And whatever node of the original is seen in the answer is seen unchanged,
unless the edit itself shows it otherwise. -/
theorem updateIn_spec {v : Value} {node : NodeId} (hv : v.WellMade node) (f : Value → Value)
    (path : List String) :
    (v.updateInM (recorded f) node path).run [] =
        (v.updateIn f node path, (v.follow path).toList) ∧
      ((v.updateIn f node path).isSome ↔ (v.follow path).isSome) ∧
      ∀ w, v.updateIn f node path = some w →
        w.follow path = (v.follow path).map f ∧
        (∀ front segment back, path = front ++ segment :: back →
          ∃ c copy, v.follow front = some c ∧ w.follow front = some copy ∧
            CopiedExcept copy c segment (node + front.length) ∧
            ∀ p ∈ v.parts, p.node? ≠ copy.node?) ∧
        ((∀ old, v.follow path = some old → (f old).Compatible v) → w.Compatible v) := by
  refine ⟨run_updateInM_recorded f, isSome_updateIn_iff hv.ordered, fun w hw => ⟨?_, ?_, ?_⟩⟩
  · exact follow_updateIn hv.ordered hw
  · rintro front segment back rfl
    obtain ⟨c, copy, hc, hcopy, hcopied⟩ := exists_copied_of_updateIn hv.ordered hw
    refine ⟨c, copy, hc, hcopy, hcopied, fun p hp heq => ?_⟩
    have hlt := hv.below p hp _ (heq.trans hcopied.node)
    exact absurd hlt (Nat.not_lt.2 (Nat.le_add_right _ _))
  · exact fun hf => compatible_updateIn hv hf hw

/-- A table with one sequence under two keys, edited at a position of the first: the table and that
sequence are copied, and under the second key there is still the old sequence. -/
theorem updateIn_spec_shared_sequence :
    let items := seq .vector 2 [text 1 "x", null]
    let v := dict .table 3 [("a", items), ("b", items)]
    let edited := seq .vector 5 [bool true, null]
    v.WellMade 4 ∧
      v.updateIn (fun _ => bool true) 4 ["a", "+0"] =
        some (dict .table 4 [("a", edited), ("b", items)]) ∧
      ((v.updateInM (recorded fun _ => bool true) 4 ["a", "+0"]).run []).2 = [text 1 "x"] ∧
      (dict .table 4 [("a", edited), ("b", items)]).Compatible v := by
  intro items v edited
  have hmade : v.WellMade 4 := by
    have hitems : items.Ordered := ⟨trivial, trivial, trivial⟩
    refine ⟨?_, ?_, ?_⟩
    · refine ⟨by simp, hitems, ?_, hitems, trivial⟩
      rintro earlier ⟨⟩
      decide
    · simp [v, items, Coherent, parts, entryParts, itemParts, sameNode]
    · simp [v, items, parts, entryParts, itemParts, node?]
  have hanswer : v.updateIn (fun _ => bool true) 4 ["a", "+0"] =
      some (dict .table 4 [("a", edited), ("b", items)]) := by rfl
  obtain ⟨hrun, -, hspec⟩ := updateIn_spec hmade (fun _ => bool true) ["a", "+0"]
  refine ⟨hmade, hanswer, by rw [hrun]; rfl, (hspec _ hanswer).2.2 ?_⟩
  intro old _ p hp q _ hnode
  simp only [parts, List.mem_singleton] at hp
  rw [hp] at hnode
  cases hnode

end SharedExchange.Value
