import Mathlib.Tactic
import SharedExchange.Proofs.Value.Editing

/-! # How values are made

A `History` has all values that were made one after the other, each by a constructor or an edit out
of those made before it (`Makes`), with nodes shared in any way. Every step keeps the keys of every
container ascending (`Makes.ordered`), and so does every history (`History.ordered`).

As keys ascend, a value is known from what can be reached in it: two values in which all paths lead
to the same kinds and bits (`Alike`) have one content (`alike_iff`). -/

namespace SharedExchange.Value

open Arena (Ascending)

/-! ## Histories -/

/-- What can be made out of the values made before. New nodes have any numbers, and the edited value
of `updateIn` was made before it as well. -/
inductive Makes (made : List Value) : Value → Prop
  /-- A value without a node. -/
  | scalar {v : Value} (h : v.node? = none) : Makes made v
  | text (node : NodeId) (s : String) : Makes made (.text node s)
  | seq (kind : SeqKind) (node : NodeId) {items : List Value} (h : ∀ v ∈ items, v ∈ made) :
    Makes made (.seq kind node items)
  | ofPairs (kind : DictKind) (node : NodeId) {pairs : List (String × Value)}
      (h : ∀ pair ∈ pairs, pair.2 ∈ made) : Makes made (.ofPairs kind node pairs)
  | pick {v w : Value} {segment : String} (hv : v ∈ made) (h : v.child? segment = some w) :
    Makes made w
  | insert {v child w : Value} {node : NodeId} {key : String} (hv : v ∈ made)
      (hchild : child ∈ made) (h : v.insert? node key child = some w) : Makes made w
  | erase {v w : Value} {node : NodeId} {key : String} (hv : v ∈ made)
      (h : v.erase? node key = some w) : Makes made w
  | push {v child w : Value} {node : NodeId} (hv : v ∈ made) (hchild : child ∈ made)
      (h : v.push? node child = some w) : Makes made w
  | set {v child w : Value} {node : NodeId} {i : Nat} (hv : v ∈ made) (hchild : child ∈ made)
      (h : v.set? node i child = some w) : Makes made w
  | updateIn {v w : Value} {node : NodeId} {path : List String} {f : Value → Value}
      (hv : v ∈ made) (hf : ∀ old, v.follow path = some old → f old ∈ made)
      (h : v.updateIn f node path = some w) : Makes made w
  | recast {v w : Value} {target : Kind} (hv : v ∈ made) (h : v.recast? target = some w) :
    Makes made w

/-- Values that were made one after the other, the last one first. -/
inductive History : List Value → Prop
  | start : History []
  | next {made : List Value} {v : Value} (h : History made) (hv : Makes made v) :
    History (v :: made)

variable {made made' : List Value} {v w : Value}

/-! ### What is made is ordered -/

/-- However the pairs are ordered, their keys ascend once they are entries. -/
theorem ordered_ofPairs (kind : DictKind) (node : NodeId) {pairs : List (String × Value)}
    (h : ∀ pair ∈ pairs, pair.2.Ordered) : (ofPairs kind node pairs).Ordered := by
  have hfold : ∀ entries : List (String × Value), EntriesOrdered none entries →
      EntriesOrdered none
        (pairs.foldl (fun entries pair => insertEntry pair.1 pair.2 entries) entries) := by
    induction pairs with
    | nil => exact fun entries hentries => hentries
    | cons pair pairs ih =>
      intro entries hentries
      refine ih (fun pair hpair => h pair (List.mem_cons_of_mem _ hpair)) _ ?_
      have hset : (dict kind node (insertEntry pair.1 pair.2 entries)).Ordered :=
        Ordered.insert? (v := dict kind node entries) hentries (h _ List.mem_cons_self) rfl
      exact hset
  exact hfold [] trivial

/-- A container is ordered without one of its keys. -/
theorem Ordered.erase? {node : NodeId} {key : String} (hv : v.Ordered)
    (h : v.erase? node key = some w) : w.Ordered := by
  cases v with
  | dict kind n entries =>
    rw [Value.erase?] at h
    split at h <;> cases h
    · rw [Ordered, entriesOrdered_iff] at hv ⊢
      exact ⟨hv.1.filter _, fun entry hentry => hv.2 entry (List.mem_of_mem_filter hentry)⟩
    · exact hv
  | _ => cases h

/-- A sequence is ordered with one more item that is. -/
theorem Ordered.push? {child : Value} {node : NodeId} (hv : v.Ordered) (hchild : child.Ordered)
    (h : v.push? node child = some w) : w.Ordered := by
  cases v with
  | seq kind n items =>
    cases h
    rw [Ordered, itemsOrdered_iff] at hv ⊢
    intro item hitem
    rcases List.mem_append.1 hitem with hitem | hitem
    · exact hv item hitem
    · rw [List.mem_singleton.1 hitem]
      exact hchild
  | _ => cases h

/-- A container is ordered when it is made one of another kind. -/
theorem Ordered.recast? {target : Kind} (hv : v.Ordered) (h : v.recast? target = some w) :
    w.Ordered := by
  cases v <;> cases target <;> cases h <;> exact hv

/-- Whatever is made out of ordered values is ordered. -/
theorem Makes.ordered (hmade : ∀ v ∈ made, v.Ordered) (h : Makes made w) : w.Ordered := by
  cases h with
  | scalar h =>
    cases w with
    | seq => cases h
    | dict => cases h
    | _ => trivial
  | text node s => trivial
  | seq kind node h =>
    rw [Ordered, itemsOrdered_iff]
    exact fun v hv => hmade v (h v hv)
  | ofPairs kind node h => exact ordered_ofPairs kind node fun pair hpair => hmade _ (h pair hpair)
  | pick hv h => exact (hmade _ hv).child h
  | insert hv hchild h => exact (hmade _ hv).insert? (hmade _ hchild) h
  | erase hv h => exact (hmade _ hv).erase? h
  | push hv hchild h => exact (hmade _ hv).push? (hmade _ hchild) h
  | set hv hchild h => exact (hmade _ hv).set? (hmade _ hchild) h
  | updateIn hv hf h =>
    exact (hmade _ hv).updateIn (fun old hold => hmade _ (hf old hold)) h
  | recast hv h => exact (hmade _ hv).recast? h

/-- In every history all values are ordered. -/
theorem History.ordered (h : History made) : ∀ v ∈ made, v.Ordered := by
  induction h with
  | start => exact fun v hv => absurd hv List.not_mem_nil
  | next _ hv ih =>
    intro w hw
    rcases List.mem_cons.1 hw with rfl | hw
    · exact hv.ordered ih
    · exact ih w hw

/-! ## What can be seen of a value -/

/-- A value without its children and without the number of its node. -/
def face : Value → Value
  | text _ s => text 0 s
  | seq kind _ _ => seq kind 0 []
  | dict kind _ _ => dict kind 0 []
  | v => v

/-- All paths lead to the same kinds and bits, or to nothing in both. -/
def Alike (v w : Value) : Prop := ∀ path, (v.reach? path).map face = (w.reach? path).map face

/-- Values that are alike look alike at the root. -/
theorem Alike.face_eq (h : v.Alike w) : v.face = w.face := Option.some.inj (h [])

/-- What looks alike along all paths is alike, or both are missing. -/
theorem rel_alike {found found' : Option Value}
    (h : ∀ path, (found.bind fun child => child.reach? path).map face =
      (found'.bind fun child => child.reach? path).map face) : Option.Rel Alike found found' := by
  have hself := h []
  cases found with
  | none =>
    cases found' with
    | none => exact .none
    | some child' => cases hself
  | some child =>
    cases found' with
    | none => cases hself
    | some child' => exact .some h

/-- Values that are alike are so under every key. -/
theorem Alike.lookup? (h : v.Alike w) (key : String) :
    Option.Rel Alike (v.lookup? key) (w.lookup? key) :=
  rel_alike fun path => h (.key key :: path)

/-- Values that are alike are so at every position. -/
theorem Alike.item? (h : v.Alike w) (i : Nat) : Option.Rel Alike (v.item? i) (w.item? i) :=
  rel_alike fun path => h (.position i :: path)

/-- Lists that agree at every position agree one by one. -/
theorem forall₂_of_getElem? {α β : Type} {R : α → β → Prop} {as : List α} {bs : List β}
    (h : ∀ i : Nat, Option.Rel R as[i]? bs[i]?) : List.Forall₂ R as bs := by
  induction as generalizing bs with
  | nil =>
    cases bs with
    | nil => exact .nil
    | cons b bs => nomatch h 0
  | cons a as ih =>
    cases bs with
    | nil => nomatch h 0
    | cons b bs =>
      have hfirst : Option.Rel R (some a) (some b) := h 0
      cases hfirst with
      | some hab => exact .cons hab (ih fun i => h (i + 1))

/-- In front of ascending keys there is no key. -/
theorem lookup_of_lt {α : Type} {key : String} {entries : List (String × α)}
    (h : ∀ entry ∈ entries, Utf8.order key entry.1 = .lt) : entries.lookup key = none := by
  rw [List.lookup_eq_none_iff]
  intro entry hentry
  rw [bne_iff_ne]
  intro heq
  have hlt := h entry hentry
  rw [Utf8.order_eq_iff.2 heq] at hlt
  cases hlt

/-- Neither is there one that is smaller than the first. -/
theorem lookup_cons_of_lt {α : Type} {key first : String} {a : α} {entries : List (String × α)}
    (hlt : Utf8.order key first = .lt) (h : ∀ entry ∈ entries, Utf8.order first entry.1 = .lt) :
    ((first, a) :: entries).lookup key = none := by
  refine lookup_of_lt fun entry hentry => ?_
  rcases List.mem_cons.1 hentry with rfl | hentry
  · exact hlt
  · exact Utf8.order_trans hlt (h entry hentry)

/-- Entries with ascending keys that agree under every key agree one by one. -/
theorem forall₂_of_lookup {α β : Type} {R : α → β → Prop} {entries : List (String × α)}
    {entries' : List (String × β)} (hascending : Ascending entries)
    (hascending' : Ascending entries')
    (h : ∀ key, Option.Rel R (entries.lookup key) (entries'.lookup key)) :
    List.Forall₂ (fun entry entry' => entry.1 = entry'.1 ∧ R entry.2 entry'.2)
      entries entries' := by
  induction entries generalizing entries' with
  | nil =>
    cases entries' with
    | nil => exact .nil
    | cons entry' entries' =>
      have hfirst := h entry'.1
      rw [List.lookup_cons, beq_self_eq_true] at hfirst
      nomatch hfirst
  | cons entry entries ih =>
    obtain ⟨key, a⟩ := entry
    obtain ⟨hbehind, hrest⟩ := List.pairwise_cons.1 hascending
    cases entries' with
    | nil =>
      have hfirst := h key
      rw [List.lookup_cons, beq_self_eq_true] at hfirst
      nomatch hfirst
    | cons entry' entries' =>
      obtain ⟨key', b⟩ := entry'
      obtain ⟨hbehind', hrest'⟩ := List.pairwise_cons.1 hascending'
      -- the smaller of two first keys would be missing on the other side
      have hkey : key = key' := by
        rw [← Utf8.order_eq_iff]
        cases horder : Utf8.order key key' with
        | eq => rfl
        | lt =>
          have hfirst := h key
          rw [lookup_cons_of_lt horder hbehind', List.lookup_cons, beq_self_eq_true] at hfirst
          nomatch hfirst
        | gt =>
          have hbefore : Utf8.order key' key = .lt := by
            rw [← Utf8.order_swap, horder]
            rfl
          have hfirst := h key'
          rw [lookup_cons_of_lt hbefore hbehind, List.lookup_cons, beq_self_eq_true] at hfirst
          nomatch hfirst
      subst hkey
      have hfirst := h key
      rw [List.lookup_cons, List.lookup_cons, beq_self_eq_true] at hfirst
      cases hfirst with
      | some hab =>
        refine .cons ⟨rfl, hab⟩ (ih hrest hrest' fun other => ?_)
        by_cases hother : other = key
        · subst hother
          rw [lookup_of_lt hbehind, lookup_of_lt hbehind']
          exact .none
        · have hothers := h other
          rwa [List.lookup_cons, List.lookup_cons, beq_false_of_ne hother] at hothers

mutual

/-- Two ordered values that are alike have one content. -/
theorem content_eq_of_alike (v : Value) {w : Value} (hv : v.Ordered) (hw : w.Ordered)
    (h : v.Alike w) : v.content = w.content := by
  have hface := h.face_eq
  cases v with
  | seq kind node items =>
    cases w with
    | seq kind' node' items' =>
      obtain ⟨rfl, -, -⟩ := Value.seq.inj hface
      rw [Ordered] at hv hw
      rw [content, content, itemContents_eq_of_alike items hv hw (forall₂_of_getElem? h.item?)]
    | _ => cases hface
  | dict kind node entries =>
    cases w with
    | dict kind' node' entries' =>
      obtain ⟨rfl, -, -⟩ := Value.dict.inj hface
      rw [Ordered] at hv hw
      -- keys that ascend are given by what is found under them
      have hentries := forall₂_of_lookup (pairwise_of_entriesOrdered hv).2
        (pairwise_of_entriesOrdered hw).2 h.lookup?
      rw [content, content, entryContents_eq_of_alike entries hv hw hentries]
    | _ => cases hface
  | text node s =>
    cases w with
    | text node' s' =>
      obtain ⟨-, rfl⟩ := Value.text.inj hface
      rfl
    | _ => cases hface
  | _ =>
    cases w with
    | seq => cases hface
    | dict => cases hface
    | text => cases hface
    | _ => exact congrArg content hface

/-- Items that are alike have the same contents. -/
theorem itemContents_eq_of_alike (items : List Value) {items' : List Value}
    (hitems : ItemsOrdered items) (hitems' : ItemsOrdered items')
    (h : List.Forall₂ Alike items items') : itemContents items = itemContents items' := by
  cases items with
  | nil =>
    cases h
    rfl
  | cons v items =>
    cases h with
    | cons hfirst hrest =>
      rw [ItemsOrdered] at hitems hitems'
      rw [itemContents, itemContents, content_eq_of_alike v hitems.1 hitems'.1 hfirst,
        itemContents_eq_of_alike items hitems.2 hitems'.2 hrest]

/-- Entries that are alike have the same contents. -/
theorem entryContents_eq_of_alike (entries : List (String × Value))
    {entries' : List (String × Value)} {last last' : Option String}
    (hentries : EntriesOrdered last entries) (hentries' : EntriesOrdered last' entries')
    (h : List.Forall₂ (fun entry entry' => entry.1 = entry'.1 ∧ Alike entry.2 entry'.2)
      entries entries') : entryContents entries = entryContents entries' := by
  cases entries with
  | nil =>
    cases h
    rfl
  | cons entry entries =>
    obtain ⟨key, v⟩ := entry
    cases h with
    | @cons _ entry' _ entries' hfirst hrest =>
      obtain ⟨key', w⟩ := entry'
      obtain ⟨rfl, halike⟩ := hfirst
      rw [EntriesOrdered] at hentries hentries'
      rw [entryContents, entryContents,
        content_eq_of_alike v hentries.2.1 hentries'.2.1 halike,
        entryContents_eq_of_alike entries hentries.2.2 hentries'.2.2 hrest]

end

mutual

/-- The content of a value is the value with nodes of one number. -/
theorem relabel_zero (v : Value) : v.relabel (fun _ => 0) = v.content := by
  cases v with
  | seq kind node items => rw [relabel, content, relabelItems_zero items]
  | dict kind node entries => rw [relabel, content, relabelEntries_zero entries]
  | _ => simp [relabel, content]

/-- The contents of items are the items with nodes of one number. -/
theorem relabelItems_zero (items : List Value) :
    relabelItems (fun _ => 0) items = itemContents items := by
  cases items with
  | nil => rfl
  | cons v items => rw [relabelItems, itemContents, relabel_zero v, relabelItems_zero items]

/-- The contents of entries are the entries with nodes of one number. -/
theorem relabelEntries_zero (entries : List (String × Value)) :
    relabelEntries (fun _ => 0) entries = entryContents entries := by
  cases entries with
  | nil => rfl
  | cons entry entries =>
    obtain ⟨key, v⟩ := entry
    rw [relabelEntries, entryContents, relabel_zero v, relabelEntries_zero entries]

end

/-- A value looks like its content. -/
theorem face_content (v : Value) : v.content.face = v.face := by
  cases v <;> simp [content, face]

/-- In ordered values, what can be seen is the content. -/
theorem alike_iff (hv : v.Ordered) (hw : w.Ordered) : v.Alike w ↔ v.content = w.content := by
  refine ⟨content_eq_of_alike v hv hw, fun h path => ?_⟩
  have hseen : ∀ v : Value, (v.content.reach? path).map face = (v.reach? path).map face := by
    intro v
    rw [← relabel_zero, reach?_relabel, Option.map_map]
    refine Option.map_congr fun child _ => ?_
    rw [Function.comp_apply, relabel_zero, face_content]
  rw [← hseen v, ← hseen w, h]

end SharedExchange.Value
